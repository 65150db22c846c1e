/-!
# Faults

A *fault* is a broken precondition of an operation, as opposed to an error that the operation
reports through its result type.  An operation that faults changes nothing except where its own
documentation says so.
-/

namespace ManagedHost

/-- Why an operation was called outside its precondition. -/
inductive Fault where
  /-- An unsigned subtraction went below zero. -/
  | subtractOverflow
  /-- An unsigned sum left the machine word. -/
  | addOverflow
  /-- An unsigned multiplication left the machine word. -/
  | multiplyOverflow
  /-- More items were asked for than can ever be reserved. -/
  | capacityOverflow
  /-- A queue was asked for that is too long to be numbered. -/
  | queueTooLong
  /-- The parts of a duration add up to more than can be represented. -/
  | durationParts
  /-- A sum of two durations left the representable range. -/
  | durationSum
  /-- A multiple of a duration left the representable range. -/
  | durationScale
  /-- A deadline left the representable range. -/
  | instantSum
  /-- An alignment was not a power of two. -/
  | alignment
  /-- The name of a thread, given by its bytes, has a zero at the position. -/
  | threadName (position : Nat) (bytes : List Nat)
  /-- An object handle did not denote a live object. -/
  | staleHandle
  /-- A pointer was stored in a word that the object's type does not declare as a pointer. -/
  | notPointer
  /-- A word index was outside an object of `words` words. -/
  | wordBounds (index words : Nat)
  /-- An allocation that may not fail did fail; `cause` is the text of the allocation error. -/
  | exhausted (cause : String)
deriving DecidableEq, Inhabited

namespace Fault

/-- The text of a fault. -/
def message : Fault → String
  | subtractOverflow => "attempt to subtract with overflow"
  | addOverflow => "attempt to add with overflow"
  | multiplyOverflow => "attempt to multiply with overflow"
  | capacityOverflow => "capacity overflow"
  | queueTooLong => "bounded channel capacity is too large"
  | durationParts => "overflow in Duration::new"
  | durationSum => "overflow when adding durations"
  | durationScale => "overflow when multiplying duration by scalar"
  | instantSum => "overflow when adding duration to instant"
  | alignment => "assertion failed: align.is_power_of_two()"
  | threadName position bytes =>
    s!"thread name may not contain interior null bytes: NulError({position}, ["
      ++ String.intercalate ", " (bytes.map toString) ++ "])"
  | staleHandle => "stale or foreign object handle"
  | notPointer => "assertion failed: header.get().type_info().is_pointer(field)"
  | wordBounds index words => s!"word {index} out of bounds ({words} words)"
  | exhausted cause => s!"garbage collector: {cause}"

end Fault

end ManagedHost
