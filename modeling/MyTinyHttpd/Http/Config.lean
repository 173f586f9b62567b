import MyTinyHttpd.Http.Server

/-!
# `HttpServerConfig`: the command line and the file

`main` fills a configuration from the command line, makes another one from the file, and merges
them. The constructor from a file sets `is_valid_` and what it finds in the file. The strings are
empty otherwise, but `port_` and `option_` have whatever was in the memory.

* `Garbage`: what was in the memory.
* `ServerConfig.ofFile`, `ServerConfig.replaceIfNotDefault`, `merged`: the constructor, the merge
  and what `main` does with them.
* `merged_determined_iff`: the result depends on the memory unless there is a default value or that
  of the command line in it.
-/

namespace MyTinyHttpd

/-- All members of `HttpServerConfig`. A `TcpServer::Option` is a `char`. -/
structure ServerConfig extends HttpServerConfig where
  isValid : Bool
  port : UInt16
  option : UInt8

namespace ServerConfig

def defaultPort : UInt16 := 8000

/-- `kNoReusePort`. -/
def defaultOption : UInt8 := 0

/-- The members that the constructor from a file leaves uninitialised. -/
structure Garbage where
  port : UInt16
  option : UInt8

/-- The settings of a file. A port is a number of any size. -/
structure Settings where
  port : Option Int := none
  domain : Option (List UInt8) := none
  docroot : Option (List UInt8) := none

inductive ConfigFile where
  /-- The file cannot be opened. -/
  | missing
  /-- It holds no JSON object, or a setting of another type. -/
  | malformed
  | object (settings : Settings)

/-- The constructor from a file. `LOG_FATAL` and the assertion end the program (`none`). -/
def ofFile (memory : Garbage) : ConfigFile → Option ServerConfig
  | .missing =>
    some { isValid := false, port := memory.port, option := memory.option, domain := []
           docroot := [] }
  | .malformed => none
  | .object settings =>
    some
      { isValid := true
        port := (settings.port.map UInt16.ofInt).getD memory.port
        domain := settings.domain.getD []
        docroot := settings.docroot.getD []
        option := memory.option }

/-- `ReplaceIfNotDefault`, which returns whether the other configuration is valid. -/
def replaceIfNotDefault (self config : ServerConfig) : ServerConfig × Bool :=
  if config.isValid then
    let self := if config.port ≠ defaultPort then { self with port := config.port } else self
    let self := if config.domain ≠ [] then { self with domain := config.domain } else self
    let self := if config.docroot ≠ [] then { self with docroot := config.docroot } else self
    let self :=
      if config.option ≠ defaultOption then { self with option := config.option } else self
    (self, true)
  else (self, false)

/-- The configuration that `main` starts the server with. -/
def merged (cli : ServerConfig) (memory : Garbage) (file : ConfigFile) : Option ServerConfig :=
  (ofFile memory file).map fun config =>
    if config.isValid then (cli.replaceIfNotDefault config).1 else cli

/-- The settings that are not in the file, and the option, which never is, are those of the command
line. -/
structure KeepsAbsent (cli : ServerConfig) (settings : Settings) (config : ServerConfig) :
    Prop where
  port_eq : settings.port = none → config.port = cli.port
  domain_eq : settings.domain = none → config.domain = cli.domain
  docroot_eq : settings.docroot = none → config.docroot = cli.docroot
  option_eq : config.option = cli.option

/-- The memory has a default value or that of the command line where it matters. -/
structure Garbage.Harmless (memory : Garbage) (cli : ServerConfig) (settings : Settings) :
    Prop where
  port_eq : settings.port = none → memory.port = defaultPort ∨ memory.port = cli.port
  option_eq : memory.option = defaultOption ∨ memory.option = cli.option

/-- One member of the merge. -/
def pick {α : Type} [DecidableEq α] (default value old : α) : α :=
  if value ≠ default then value else old

theorem pick_eq_old_iff {α : Type} [DecidableEq α] {default value old : α} :
    pick default value old = old ↔ value = default ∨ value = old := by
  unfold pick
  by_cases h : value = default
  · simp [h]
  · simp [h]

theorem merged_eq (cli : ServerConfig) (memory : Garbage) (settings : Settings) :
    merged cli memory (.object settings) = some
      { isValid := cli.isValid
        port := pick defaultPort ((settings.port.map UInt16.ofInt).getD memory.port) cli.port
        domain := pick [] (settings.domain.getD []) cli.domain
        docroot := pick [] (settings.docroot.getD []) cli.docroot
        option := pick defaultOption memory.option cli.option } := by
  simp only [merged, ofFile, replaceIfNotDefault, Option.map_some, if_true, pick]
  congr 1
  split <;> split <;> split <;> split <;> rfl

/-- What is not in the file is kept exactly if the memory is harmless. -/
theorem keepsAbsent_iff {cli config : ServerConfig} {memory : Garbage} {settings : Settings}
    (h : merged cli memory (.object settings) = some config) :
    KeepsAbsent cli settings config ↔ memory.Harmless cli settings := by
  rw [merged_eq] at h
  obtain rfl := Option.some.inj h
  constructor
  · rintro ⟨hport, -, -, hoption⟩
    refine ⟨?_, pick_eq_old_iff.mp hoption⟩
    intro hnone
    have := hport hnone
    rw [hnone] at this
    exact pick_eq_old_iff.mp this
  · rintro ⟨hport, hoption⟩
    refine ⟨?_, ?_, ?_, pick_eq_old_iff.mpr hoption⟩
    · intro hnone
      simp only [hnone]
      exact pick_eq_old_iff.mpr (hport hnone)
    · intro hnone
      simp only [hnone]
      exact pick_eq_old_iff.mpr (.inl rfl)
    · intro hnone
      simp only [hnone]
      exact pick_eq_old_iff.mpr (.inl rfl)

/-- Two runs with the same command line and the same file end with the same configuration, which
keeps what is not in the file, exactly if the memory is harmless in both. -/
theorem merged_determined_iff (cli : ServerConfig) (settings : Settings)
    (memory memory' : Garbage) :
    (∃ config, merged cli memory (.object settings) = some config ∧
      merged cli memory' (.object settings) = some config ∧ KeepsAbsent cli settings config) ↔
      memory.Harmless cli settings ∧ memory'.Harmless cli settings := by
  constructor
  · rintro ⟨config, h, h', hkeeps⟩
    exact ⟨(keepsAbsent_iff h).mp hkeeps, (keepsAbsent_iff h').mp hkeeps⟩
  · rintro ⟨hharmless, hharmless'⟩
    have h := merged_eq cli memory settings
    refine ⟨_, h, ?_, (keepsAbsent_iff h).mpr hharmless⟩
    have hoption : pick defaultOption memory'.option cli.option =
        pick defaultOption memory.option cli.option :=
      (pick_eq_old_iff.mpr hharmless'.option_eq).trans
        (pick_eq_old_iff.mpr hharmless.option_eq).symm
    have hport : pick defaultPort ((settings.port.map UInt16.ofInt).getD memory'.port) cli.port =
        pick defaultPort ((settings.port.map UInt16.ofInt).getD memory.port) cli.port := by
      cases hsetting : settings.port with
      | some port => rfl
      | none =>
        exact (pick_eq_old_iff.mpr (hharmless'.port_eq hsetting)).trans
          (pick_eq_old_iff.mpr (hharmless.port_eq hsetting)).symm
    rw [merged_eq, hoption, hport]

/-- A file without a port, read into two memories: the port of the second run is what it found. -/
theorem merged_emptyFile :
    let cli : ServerConfig :=
      { HttpServerConfig.defaults with isValid := false, port := 9000, option := 0 }
    ((merged cli ⟨8000, 0⟩ (.object {})).map fun config => config.port) = some 9000 ∧
      ((merged cli ⟨1, 0⟩ (.object {})).map fun config => config.port) = some 1 := by
  decide

end ServerConfig

end MyTinyHttpd
