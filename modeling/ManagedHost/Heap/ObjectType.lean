import ManagedHost.Memory.Size

/-!
# Object types

The type of a heap object says which of its words hold pointers.  The set of those words is packed
into chunks of 64 bits, the word `w` being bit `w % 64` of chunk `w / 64`.
-/

namespace ManagedHost

/-- A description of the objects of one type. -/
structure ObjectType where
  name : String
  /-- Size of an object in bytes. -/
  size : Nat
  /-- The pointer words, 64 to a chunk. -/
  chunks : List Nat := []
deriving DecidableEq, Inhabited

namespace ObjectType

/-- Number of words in a chunk. -/
def chunkBits : Nat := 64

/-- A type whose objects hold no pointers. -/
def plain (name : String) (size : Nat) : ObjectType := { name, size }

/-- Put the word into the packed set. -/
def mark (chunks : List Nat) (word : Nat) : List Nat :=
  chunks.modify (word / chunkBits) (· ||| 1 <<< (word % chunkBits))

/-- A type whose objects hold pointers in the given words.  Words beyond the size are ignored. -/
def ofPointers (name : String) (size : Nat) (pointers : List Nat) : ObjectType :=
  let words := size / wordSize
  let empty := List.replicate ((words + (chunkBits - 1)) / chunkBits) 0
  { name, size, chunks := (pointers.filter (· < words)).foldl mark empty }

/-- Whether the word holds a pointer. -/
def isPointer (t : ObjectType) (word : Nat) : Bool :=
  match t.chunks[word / chunkBits]? with
  | some bits => bits &&& 1 <<< (word % chunkBits) != 0
  | none => false

/-- The words of one chunk, in ascending order. -/
def chunkWords (chunk bits : Nat) : List Nat :=
  if bits = 0 then []
  else
    ((List.range chunkBits).filter fun bit => bits &&& 1 <<< bit != 0).map (chunk * chunkBits + ·)

/-- The pointer words in ascending order. -/
def pointerWords (t : ObjectType) : List Nat :=
  t.chunks.zipIdx.flatMap fun (bits, chunk) => chunkWords chunk bits

/-- Whether any word holds a pointer. -/
def hasPointers (t : ObjectType) : Bool := t.chunks.any (· != 0)

end ObjectType

end ManagedHost
