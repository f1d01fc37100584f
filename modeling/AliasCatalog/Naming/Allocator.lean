import AliasCatalog.Naming.Error

/-!
# Allocation of identifiers among siblings

An allocator hands out the identifiers of one set of siblings.  A segment claims its key; a later
segment with the same key is never renamed but reported, together with the claimant.  Reports name
the two segments in text order, so fed in any order the same two segments give the same report.
-/

namespace AliasCatalog.Naming

open Text

/-- The identifiers handed out so far below one parent. -/
structure Allocator where
  kind : Kind
  /-- The dotted path of the parent, empty for the root. -/
  parent : String
  /-- The claimed keys, each with the segment that claimed it, the latest first. -/
  claims : List (String × String)
  deriving DecidableEq, Repr

namespace Allocator

/-- An allocator for the children of `parent` without any claim. -/
def start (kind : Kind) (parent : String) : Allocator :=
  ⟨kind, parent, []⟩

/-- The segment that claimed a key. -/
def claimant? (allocator : Allocator) (key : String) : Option String :=
  allocator.claims.lookup key

def size (allocator : Allocator) : Nat :=
  allocator.claims.length

def isEmpty (allocator : Allocator) : Bool :=
  allocator.claims.isEmpty

/-- The report on two segments with one key, in text order. -/
def clash (allocator : Allocator) (claimant segment : String) (identifier : Identifier) :
    NamingError :=
  if claimant ≤ segment then
    .collision allocator.kind allocator.parent claimant segment identifier
  else .collision allocator.kind allocator.parent segment claimant identifier

/-- Hands out the identifier of a raw segment, which may be any text. -/
def allocate (allocator : Allocator) (segment : String) :
    Except NamingError (Identifier × Allocator) :=
  match normalize segment with
  | none => .error (.invalidName allocator.kind segment .wordless)
  | some identifier =>
    match allocator.claimant? identifier.key with
    | some claimant => .error (allocator.clash claimant segment identifier)
    | none =>
      .ok (identifier, { allocator with claims := (identifier.key, segment) :: allocator.claims })

/-- What an attempt gives, and the allocator after it; a refused segment leaves it as it was. -/
def attempt (allocator : Allocator) (segment : String) :
    Except NamingError Identifier × Allocator :=
  match allocator.allocate segment with
  | .ok (identifier, next) => (.ok identifier, next)
  | .error error => (.error error, allocator)

/-- Attempts one segment after the other, whatever the outcomes. -/
def attempts (allocator : Allocator) :
    List String → List (Except NamingError Identifier × Allocator)
  | [] => []
  | segment :: rest =>
    let outcome := allocator.attempt segment
    outcome :: outcome.2.attempts rest

/-- Hands out the identifiers of a list of segments, up to the first refusal. -/
def allocateAll (allocator : Allocator) : List String → Except NamingError (List Identifier)
  | [] => .ok []
  | segment :: rest => do
    let (identifier, next) ← allocator.allocate segment
    let others ← next.allocateAll rest
    return identifier :: others

/-- A refused segment leaves the claims as they were. -/
theorem attempt_of_error {allocator : Allocator} {segment : String} {error : NamingError}
    (refused : allocator.allocate segment = .error error) :
    allocator.attempt segment = (.error error, allocator) := by
  simp [attempt, refused]

/-- There is one outcome for each attempt. -/
@[simp] theorem length_attempts (allocator : Allocator) (segments : List String) :
    (allocator.attempts segments).length = segments.length := by
  induction segments generalizing allocator with
  | nil => rfl
  | cons segment rest ih => simp [attempts, ih]

end Allocator

end AliasCatalog.Naming
