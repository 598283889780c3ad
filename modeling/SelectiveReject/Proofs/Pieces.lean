import SelectiveReject.Proofs.Requests

/-!
# The pieces of a file

A file is sent in pieces of the length asked for, the last one shorter, and numbered from one:

```
piece 1 ++ piece 2 ++ … ++ piece seq = take (seq * buffer)
```

A `Consignment` is a valid request together with the file that it is for, short enough that every packet
has a number of 32 bits.  In a `Job` the numbers that a receiver looks ahead at have one, too.
-/

namespace SelectiveReject

/-- The bytes of a file that packet `seq` carries. -/
def piece (file : Bytes) (buffer seq : Nat) : Bytes :=
  (file.drop ((seq - 1) * buffer)).take buffer

/-- How many packets a file makes. -/
def pieceCount (file : Bytes) (buffer : Nat) : Nat := (file.length + buffer - 1) / buffer

section
variable {file : Bytes} {buffer seq : Nat}

theorem length_piece_le : (piece file buffer seq).length ≤ buffer := by
  rw [piece, List.length_take]
  omega

theorem le_pieceCount_iff (hb : 0 < buffer) (hseq : 1 ≤ seq) :
    seq ≤ pieceCount file buffer ↔ (seq - 1) * buffer < file.length := by
  obtain ⟨k, rfl⟩ : ∃ k, seq = k + 1 := ⟨seq - 1, by omega⟩
  rw [pieceCount, Nat.le_div_iff_mul_le hb, Nat.add_mul, Nat.add_sub_cancel]
  omega

/-- The file ends where the pieces become empty. -/
theorem piece_eq_nil_iff (hb : 0 < buffer) (hseq : 1 ≤ seq) :
    piece file buffer seq = [] ↔ pieceCount file buffer < seq := by
  have := @le_pieceCount_iff file buffer seq hb hseq
  rw [piece, List.take_eq_nil_iff, List.drop_eq_nil_iff]
  omega

theorem take_append_piece (hseq : 1 ≤ seq) :
    file.take ((seq - 1) * buffer) ++ piece file buffer seq = file.take (seq * buffer) := by
  obtain ⟨k, rfl⟩ : ∃ k, seq = k + 1 := ⟨seq - 1, by omega⟩
  rw [piece, Nat.add_sub_cancel, Nat.add_mul, Nat.one_mul, List.take_add]

theorem take_pieceCount (hb : 0 < buffer) : file.take (pieceCount file buffer * buffer) = file := by
  apply List.take_of_length_le
  have := @le_pieceCount_iff file buffer _ hb (Nat.le_add_left 1 (pieceCount file buffer))
  rw [Nat.add_sub_cancel] at this
  omega

end

/-- A request and the file it is for. -/
structure Consignment where
  request : FileRequest
  file : Bytes
  valid : request.check = .ok ()
  countable : pieceCount file request.parameters.buffer.toNat ≤ limit32 - 2

namespace Consignment

variable (j : Consignment)

def window : Nat := j.request.parameters.window.toNat

def buffer : Nat := j.request.parameters.buffer.toNat

/-- The number of the last packet. -/
def last : Nat := pieceCount j.file j.buffer

def piece (seq : Nat) : Bytes := SelectiveReject.piece j.file j.buffer seq

/-- The bytes of the packets up to number `seq`. -/
def upTo (seq : Nat) : Bytes := j.file.take (seq * j.buffer)

theorem window_range : 1 ≤ j.window ∧ j.window ≤ 229 := by
  have := (Parameters.check_eq_ok_iff _).mp (FileRequest.parameters_of_check j.valid)
  exact ⟨this.1, this.2.1⟩

theorem window_pos : 1 ≤ j.window := j.window_range.1

theorem buffer_range : 400 ≤ j.buffer ∧ j.buffer ≤ 1400 := by
  have := (Parameters.check_eq_ok_iff _).mp (FileRequest.parameters_of_check j.valid)
  exact this.2.2

theorem buffer_pos : 0 < j.buffer := by
  have := j.buffer_range
  omega

theorem last_succ_lt : j.last + 1 < limit32 := by
  have := j.countable
  change j.last ≤ limit32 - 2 at this
  unfold limit32 at *
  omega

theorem length_piece (seq : Nat) : (j.piece seq).length ≤ Packet.maxPayload :=
  Nat.le_trans length_piece_le j.buffer_range.2

theorem piece_eq_nil_iff {seq : Nat} (hseq : 1 ≤ seq) : j.piece seq = [] ↔ j.last < seq :=
  SelectiveReject.piece_eq_nil_iff j.buffer_pos hseq

theorem upTo_zero : j.upTo 0 = [] := by simp [upTo]

theorem upTo_succ (seq : Nat) : j.upTo (seq + 1) = j.upTo seq ++ j.piece (seq + 1) :=
  (take_append_piece (Nat.le_add_left 1 seq)).symm

theorem upTo_last : j.upTo j.last = j.file := take_pieceCount j.buffer_pos

/-- Every beginning of the file is one. -/
theorem upTo_prefix (seq : Nat) : j.upTo seq <+: j.file := List.take_prefix _ _

end Consignment

/-- A consignment whose packets are few enough for the windows of both sides. -/
structure Job extends Consignment where
  short : pieceCount file request.parameters.buffer.toNat <
    limit32 - 2 - request.parameters.window.toNat

namespace Job

instance : Coe Job Consignment := ⟨toConsignment⟩

theorem last_lt (j : Job) : j.last + j.window + 2 < limit32 := by
  have := j.short
  change j.last < limit32 - 2 - j.window at this
  omega

end Job

end SelectiveReject
