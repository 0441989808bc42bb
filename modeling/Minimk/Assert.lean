import Minimk.Abort

namespace Minimk

-- One constructor for each MINIMK_ASSERT of the modelled functions, named after the
-- function and what it checks.
inductive Assertion where
  | stackAllocPageSize
  | validateStackPointer
  | suspendIoSock
  | resumeIoDeadline | resumeIoSock | resumeIoEvents
  | blockOnPollSock | blockOnPollEvents | blockOnPollRevents | blockOnPollRc
  | coroutineMainCurrent | coroutineMainReturned
  | runCurrent | yieldCurrent | suspendTimerCurrent | suspendIoCurrent
  | makeHandleGeneration
  | infoGetIndex | infoCreateSlotIndex
  | writeallPointer | writeallNonzero | writeallAmount
  | readallPointer | readallNonzero | readallAmount
  deriving DecidableEq, Repr

end Minimk
