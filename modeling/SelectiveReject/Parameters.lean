import SelectiveReject.Packet

/-!
# What a transfer is agreed to look like

The client asks for a window, in packets, and for the length of the payloads, in bytes.
-/

namespace SelectiveReject

structure Parameters where
  /-- How many packets may be on their way unacknowledged. -/
  window : UInt32
  /-- How many bytes of the file a packet carries. -/
  buffer : UInt32
  deriving DecidableEq, Repr

namespace Parameters

def minWindow : Nat := 1
def maxWindow : Nat := 229
def minBuffer : Nat := 400
def maxBuffer : Nat := 1400

/-- What is used when nothing is asked for. -/
def default : Parameters := ⟨10, UInt32.ofNat maxBuffer⟩

/-- Both sizes are in their range; the window is looked at first. -/
def check (p : Parameters) : Except Error Unit :=
  if p.window.toNat < minWindow ∨ maxWindow < p.window.toNat then
    .error (.invalidWindow p.window.toNat)
  else if p.buffer.toNat < minBuffer ∨ maxBuffer < p.buffer.toNat then
    .error (.invalidBuffer p.buffer.toNat)
  else .ok ()

/-- Parameters with both sizes in their range. -/
def make (window buffer : UInt32) : Except Error Parameters :=
  (check ⟨window, buffer⟩).map fun _ => ⟨window, buffer⟩

end Parameters

end SelectiveReject
