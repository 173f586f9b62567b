import MyTinyHttpd.Base.LogStop
import MyTinyHttpd.Base.Logging
import MyTinyHttpd.Base.PoolStop
import MyTinyHttpd.Base.PoolResize
import MyTinyHttpd.Base.BlockingQueue
import MyTinyHttpd.Base.BoundedBlockingQueue
import MyTinyHttpd.Base.Thread
import MyTinyHttpd.Base.PoolRefine
import MyTinyHttpd.Base.LogRoll
import MyTinyHttpd.Base.LogLines
import MyTinyHttpd.Net.ByteQueue
import MyTinyHttpd.Net.BufferInts
import MyTinyHttpd.Net.BufferWrap
import MyTinyHttpd.Net.FlowControl
import MyTinyHttpd.Net.Graceful
import MyTinyHttpd.Net.CloseOnce
import MyTinyHttpd.Net.TearDown
import MyTinyHttpd.Net.LifeCycle
import MyTinyHttpd.Net.TimerArming
import MyTinyHttpd.Net.TimerCancel
import MyTinyHttpd.Net.WheelIdle
import MyTinyHttpd.Net.ListNodes
import MyTinyHttpd.Net.Wakeup
import MyTinyHttpd.Net.EventLoopThread
import MyTinyHttpd.Net.RoundRobin
import MyTinyHttpd.Net.DefaultPoller
import MyTinyHttpd.Net.ConnectorRun
import MyTinyHttpd.Net.ConnectorStart
import MyTinyHttpd.Http.LineGrammar
import MyTinyHttpd.Http.HeaderEnd
import MyTinyHttpd.Http.FileResponse
import MyTinyHttpd.Http.Reset
import MyTinyHttpd.Http.Pipeline
import MyTinyHttpd.Http.Shutdown
import MyTinyHttpd.Http.MethodAssert
import MyTinyHttpd.Http.ParseLoop
import MyTinyHttpd.Http.DocRoot
import MyTinyHttpd.Http.Config
import MyTinyHttpd.Utils.ZoneFile
import MyTinyHttpd.Base.LogTime
import MyTinyHttpd.Base.LogArray
import MyTinyHttpd.Utils.UtcTime
import MyTinyHttpd.Utils.LocalInverse
import MyTinyHttpd.Http.Wire
