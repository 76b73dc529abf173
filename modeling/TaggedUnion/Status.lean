import TaggedUnion.OneOf.Assertion
import TaggedUnion.OneOf.Transform

/-! # The status of a job

    A union of three cases, which shows the use of unions at run time: a job is active, is
    scheduled again, or was given up.
-/

namespace TaggedUnion

/-- The job is running. -/
structure Active where
  /-- What it is doing. -/
  description : String
deriving Repr, DecidableEq

/-- The job failed and is scheduled again. -/
structure Retry where
  /-- The number of the attempt, counted from one. -/
  attempt : UInt32
deriving Repr, DecidableEq

/-- The job was given up. -/
structure Aborted where
  /-- When, in seconds since the epoch. -/
  cancellationTime : Nat
deriving Repr, DecidableEq

/-- The three cases of a status. -/
@[reducible] def statusCases : Fin 3 → Type
  | 0 => Active
  | 1 => Retry
  | 2 => Aborted

/-- The status of a job. -/
abbrev Status := OneOf statusCases

instance : ∀ k, DecidableEq (statusCases k)
  | 0 => inferInstanceAs (DecidableEq Active)
  | 1 => inferInstanceAs (DecidableEq Retry)
  | 2 => inferInstanceAs (DecidableEq Aborted)

instance : Shown Active :=
  ⟨fun a => "Active \x7b description: " ++ Text.quote a.description ++ " \x7d"⟩

instance : Shown Retry := ⟨fun r => "Retry \x7b attempt: " ++ toString r.attempt.toNat ++ " \x7d"⟩

instance : Shown Aborted :=
  ⟨fun a => "Aborted \x7b cancellation_time: SystemTime \x7b tv_sec: "
    ++ toString a.cancellationTime ++ ", tv_nsec: 0 \x7d \x7d"⟩

instance : ∀ k, Shown (statusCases k)
  | 0 => inferInstanceAs (Shown Active)
  | 1 => inferInstanceAs (Shown Retry)
  | 2 => inferInstanceAs (Shown Aborted)

namespace Status

/-- The names of the union and its cases. -/
def labels : Labels 3 where
  union := "Status"
  caseName
    | 0 => "Active"
    | 1 => "Retry"
    | 2 => "Aborted"

/-! ### Building a status -/

def ofActive (a : Active) : Status := .ofCase 0 a

def ofRetry (r : Retry) : Status := .ofCase 1 r

def ofAborted (a : Aborted) : Status := .ofCase 2 a

instance : Coe Active Status := ⟨ofActive⟩

instance : Coe Retry Status := ⟨ofRetry⟩

instance : Coe Aborted Status := ⟨ofAborted⟩

/-- The status of a job that is running. -/
def newActive (description : String) : Status := ofActive ⟨description⟩

/-- The status of a job that is scheduled again. -/
def newRetry (attempt : UInt32) : Status := ofRetry ⟨attempt⟩

/-- The status of a job that was given up. -/
def newAborted (cancellationTime : Nat) : Status := ofAborted ⟨cancellationTime⟩

/-- The job can make no further progress. -/
def isTerminal (s : Status) : Bool := s.isCase 2

end Status

end TaggedUnion
