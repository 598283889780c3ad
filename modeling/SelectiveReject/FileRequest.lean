import SelectiveReject.Parameters

/-!
# Asking for a file

The client's first packet carries the sizes it wants and the name of the file:

```
window (32 bits) | buffer (32 bits) | name (UTF-8, to the end of the payload)
```

A request is valid if its sizes are in range and its name is neither empty nor longer than 100
bytes nor holds a NUL.  `ofPayload` accepts the payloads of valid requests and nothing else.
-/

namespace SelectiveReject

structure FileRequest where
  parameters : Parameters
  name : String
  deriving DecidableEq, Repr

namespace FileRequest

/-- The longest name, in bytes. -/
def maxName : Nat := 100

/-- The sizes are looked at first, then the name: empty, too long, with a NUL. -/
def check (r : FileRequest) : Except Error Unit :=
  match r.parameters.check with
  | .error e => .error e
  | .ok () =>
      if r.name.isEmpty then .error (.invalidName .empty)
      else if maxName < r.name.utf8ByteSize then .error (.invalidName .tooLong)
      else if '\x00' ∈ r.name.toList then .error (.invalidName .containsNul)
      else .ok ()

/-- A valid request. -/
def make (parameters : Parameters) (name : String) : Except Error FileRequest :=
  (check ⟨parameters, name⟩).map fun _ => ⟨parameters, name⟩

/-- The request as a payload. -/
def toPayload (r : FileRequest) : Bytes :=
  bigEndian32 r.parameters.window ++ bigEndian32 r.parameters.buffer ++ r.name.toUTF8.toList

/-- The request as a packet; all requests have the number zero. -/
def toPacket (r : FileRequest) : Packet :=
  ⟨0, .fname, r.toPayload⟩

/-- Reads a payload: it must be longer than the two sizes, the name must be UTF-8, and the request
must be valid. -/
def ofPayload (payload : Bytes) : Except Error FileRequest :=
  match payload with
  | a :: b :: c :: d :: e :: f :: g :: h :: first :: rest =>
      match String.fromUTF8? (first :: rest).toByteArray with
      | none => .error (.invalidName .notUtf8)
      | some name => make ⟨readBigEndian32 a b c d, readBigEndian32 e f g h⟩ name
  | _ => .error (.invalidName .payloadTooShort)

end FileRequest

end SelectiveReject
