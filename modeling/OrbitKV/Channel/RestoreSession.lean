import OrbitKV.Channel.Completion

/-!
# Restore sessions

The operations of the Manager on one operation id follow each other, and the engine reports a drain
for each plan that it has claimed, once. `continue_local` is left free.
-/

namespace OrbitKV

def RestoreCall.managed? : RestoreCall → Option Nat
  | .claim id | .startManaged id | .publishLocal id .. | .revoke id _ | .releasePlan id
  | .drainTiming id | .drainSucceeded id | .reap id _ | .reject id .. | .complete id _ => some id
  | _ => none

inductive SessionCall where
  | single (call : RestoreCall)
  /-- A claim of the engine, and the report of its drain if there was a plan. -/
  | execute (id : Nat) (fault drainFault : Option String) (result : RestoreResult)
      (timing : Option RestoreTiming) (doneFault : Option String)
  deriving DecidableEq

namespace SessionCall

def body : SessionCall → Op RestoreReply
  | .single call => call.body
  | .execute id fault drainFault result timing doneFault => do
      match ← RestoreCompletions.claimLocal id fault drainFault with
      | none => return .plan none
      | some _ => return .flag (← RestoreCompletions.drained id result timing doneFault)

def managed? : SessionCall → Option Nat
  | .single call => call.managed?
  | .execute .. => none

def isLone : SessionCall → Bool
  | .single (.claimLocal ..) | .single (.drained ..) => true
  | _ => false

end SessionCall

abbrev SessionSystem : Type :=
  System Area Access Access.Answer CompletionError RestoreReply SessionCall

def SessionSystem.isBusy (s : SessionSystem) (id : Nat) : Bool :=
  s.threads.any fun thread =>
    match thread.progress with
    | .running _ => thread.call.managed? == some id
    | .replied _ => false

def SessionSystem.mayStart (s : SessionSystem) (call : SessionCall) : Bool :=
  !call.isLone && call.managed?.all fun id => !s.isBusy id

def SessionSystem.IsNew (s : SessionSystem) : Prop :=
  s = ⟨Area.new, []⟩

def sessionMachine : Machine SessionSystem (SystemStep SessionCall) :=
  .ofNext SessionSystem.IsNew
    (System.next SessionCall.body Access.perform SessionSystem.mayStart)

end OrbitKV
