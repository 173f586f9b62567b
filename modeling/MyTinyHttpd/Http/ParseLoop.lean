import MyTinyHttpd.Http.Pipeline

/-!
# The loop of `ParseRequest` ends

On a connection, `ParseRequest` is never called in `kGotAll`. From the other states, an iteration
that goes on has read a line with its CRLF and does not come to `kGotAll`.

* `loopBody_more`: what an iteration that goes on has done.
* `parseRequest_terminates`: so the loop ends, on every connection and for every content of the
  buffer.
-/

namespace MyTinyHttpd

open Verif HttpContext

namespace HttpContext

/-- The loop goes on from here. -/
structure GoesOn (s : Loop) : Prop where
  input_inv : s.buf.Inv
  ok_eq : s.ok = true
  not_gotAll : s.context.state ≠ .kGotAll

/-- An iteration that goes on has read a line. -/
theorem loopBody_more (t : Timestamp) {s s' : Loop} (h : GoesOn s) (hmore : s.hasMore = true)
    (hbody : loopBody t s = .ok s') (hmore' : s'.hasMore = true) :
    GoesOn s' ∧ s'.buf.readableBytes + 2 ≤ s.buf.readableBytes := by
  have hholds : s.buf.Holds s.buf.readable := ⟨h.input_inv, rfl⟩
  have hagree := loopBody_agrees t hholds h.ok_eq hmore h.not_gotAll
  rw [hbody] at hagree
  cases hscan : scan t s.context s.buf.readable with
  | done p =>
    rw [hscan] at hagree
    rw [hagree.1] at hmore'
    cases hmore'
  | more c rest found =>
    rw [hscan] at hagree
    obtain ⟨-, hok, rfl, -, hrest⟩ := hagree
    obtain ⟨line, hcut, -⟩ := scan_more hscan
    have hlen := cutPair_length (by decide) hcut
    rw [← hrest.readable_eq, h.input_inv.length_readable, hrest.inv.length_readable] at hlen
    exact ⟨⟨hrest.inv, hok, scan_more_state hscan⟩, by omega⟩

/-- The loop of a call, at its start. -/
def startLoop (c : HttpContext) (buf : Buffer) : Loop :=
  { context := c, buf, ok := true, hasMore := true, found := [] }

theorem goesOn_head (t : Timestamp) {s : Loop} (h : GoesOn s) {l : Loop}
    (hhead : LoopHead (fun s : Loop => s.hasMore) (loopBody t) s l) (hmore : l.hasMore = true) :
    GoesOn l := by
  refine LoopHead.invariant (fun l => l.hasMore = true → GoesOn l) (fun _ => h) ?_ hhead hmore
  intro l l' hl hmore hbody hmore'
  exact (loopBody_more t (hl hmore) hmore hbody hmore').1

end HttpContext

namespace Session

variable {ω : Type}

/-- On every connection, after every sequence of chunks: the context is not in `kGotAll`, and for
every time and every content of the buffer, the loop of `ParseRequest` ends. It never comes to its
head in `kGotAll`, and each iteration that goes on has read two bytes or more. -/
theorem parseRequest_terminates (alloc : Allocator) (server : HttpServer ω)
    (answers : Nat → WriteResult) (w : ω) (events : List Event) :
    let s := events.foldl (step alloc server) (established alloc answers w)
    s.conn.context.state ≠ .kGotAll ∧
    (∀ data, (s.receive alloc data).conn.inputBuffer.Inv) ∧
    ∀ (t : Timestamp) (buf : Buffer), buf.Inv →
      parseRequest t s.conn.context buf ≠ .diverged ∧
      ∀ l, LoopHead (fun l : Loop => l.hasMore) (loopBody t) (startLoop s.conn.context buf) l →
        l.hasMore = true → l.context.state ≠ .kGotAll ∧
          ∀ l', loopBody t l = .ok l' → l'.hasMore = true →
            l'.buf.readableBytes + 2 ≤ l.buf.readableBytes := by
  intro s
  have hready : s.Ready := ready_run alloc server (ready_established alloc answers w) events
  refine ⟨hready.not_gotAll, fun data => (receive_holds alloc hready data).inv, ?_⟩
  intro t buf hinv
  have hstart : GoesOn (startLoop s.conn.context buf) := ⟨hinv, rfl, hready.not_gotAll⟩
  constructor
  · obtain ⟨r, -, hr⟩ := loop_agrees t hready.not_gotAll
      (show buf.Holds buf.readable from ⟨hinv, rfl⟩)
    simp only [parseRequest, hr _ (Nat.le_refl _)]
    cases r <;> exact ParseOutcome.noConfusion
  · intro l hhead hmore
    have hgoes := goesOn_head t hstart hhead hmore
    exact ⟨hgoes.not_gotAll, fun l' hbody hmore' => (loopBody_more t hgoes hmore hbody hmore').2⟩

/-- Two chunks that end inside a header line. -/
def insideHeaders : List Event :=
  [.message ⟨1, ascii "GET /a HT"⟩, .message ⟨2, ascii "TP/1.1\r\nHost: b\r\nX"⟩]

/-- The next chunk ends this line and brings two more: the loop goes on after the first two
iterations. -/
theorem insideHeaders_terminates :
    let s := insideHeaders.foldl (step Buffer.zeroAlloc plainServer) plainSession
    let buf := (s.receive Buffer.zeroAlloc (ascii "-A: 1\r\nY: 2\r\nZ: 3\r\n")).conn.inputBuffer
    s.conn.context.state = .kExpectHeaders ∧ parseRequest 3 s.conn.context buf ≠ .diverged ∧
      ∃ l l', loopBody 3 (startLoop s.conn.context buf) = .ok l ∧ loopBody 3 l = .ok l' ∧
        l'.hasMore = true ∧ l'.buf.readableBytes = 6 ∧ l.context.state ≠ .kGotAll ∧
        l.buf.readableBytes + 2 ≤ buf.readableBytes ∧
        l'.buf.readableBytes + 2 ≤ l.buf.readableBytes := by
  intro s buf
  obtain ⟨-, hbuf, hloop⟩ := parseRequest_terminates Buffer.zeroAlloc plainServer
    (fun _ => .accepted 65536) () insideHeaders
  obtain ⟨hends, hheads⟩ := hloop 3 buf (hbuf _)
  have hstate : s.conn.context.state = .kExpectHeaders := by decide +kernel
  have hfirst : loopBody 3 (startLoop s.conn.context buf) =
      .ok (headersBody (startLoop s.conn.context buf)) := by
    simp only [loopBody, startLoop, hstate]
  obtain ⟨hstate', hmore, hmore', hleft⟩ :
      (headersBody (startLoop s.conn.context buf)).context.state = .kExpectHeaders ∧
        (headersBody (startLoop s.conn.context buf)).hasMore = true ∧
        (headersBody (headersBody (startLoop s.conn.context buf))).hasMore = true ∧
        (headersBody (headersBody (startLoop s.conn.context buf))).buf.readableBytes = 6 := by
    decide +kernel
  have hsecond : loopBody 3 (headersBody (startLoop s.conn.context buf)) =
      .ok (headersBody (headersBody (startLoop s.conn.context buf))) := by
    rw [loopBody, hstate']
  have hhead := hheads _ .start rfl
  have hnext := hheads _ (.next .start rfl hfirst) hmore
  exact ⟨hstate, hends, _, _, hfirst, hsecond, hmore', hleft, hnext.1, hhead.2 _ hfirst hmore,
    hnext.2 _ hsecond hmore'⟩

end Session

end MyTinyHttpd
