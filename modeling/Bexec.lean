import Bexec.StopToken.Contract
import Bexec.StopToken.Lifetime
import Bexec.StopToken.WordView
import Bexec.StopToken.CallbackList
import Bexec.StopToken.Drain
import Bexec.CountingScope.WordContract
import Bexec.CountingScope.JoinContract
import Bexec.RepeatUntil.Refinement
import Bexec.Spawn.Contract
import Bexec.RunLoop.Wakeup
import Bexec.RunLoop.Shutdown
import Bexec.WhenAll.Contract
import Bexec.WhenAll.Lifetime
import Bexec.Let.StartChild
import Bexec.On.Join
import Bexec.WhenAll.Exceptions
import Bexec.Generator.SinglePass
import Bexec.Adaptors.Laws
import Bexec.Spawn.Construction
import Bexec.Associate.Accounts
import Bexec.SyncWait.Run
import Bexec.InPlace.Contract
import Bexec.Task.Contract
import Bexec.ScopeStop.Contract
import Bexec.SpawnFuture.Contract
import Bexec.TaskBody.Contract
import Bexec.Expression.Stop
import Bexec.Expression.Termination
