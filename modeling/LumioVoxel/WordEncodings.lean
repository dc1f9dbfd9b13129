import LumioVoxel.Plumbing
import LumioVoxel.SelfDelimiting

/-!
# Words as self-delimiting encodings

A little-endian word has a fixed number of bytes and determines them, so it can stand in front
of anything, as a value or as the length of what follows.
-/

namespace LumioVoxel

theorem u16LeBytes_injective {a b : UInt16} (h : u16LeBytes a = u16LeBytes b) : a = b := by
  simp only [u16LeBytes, List.cons.injEq, and_true] at h
  rw [← u16FromLeBytes_bytes a, h.1, h.2, u16FromLeBytes_bytes]

theorem u32LeBytes_injective {a b : UInt32} (h : u32LeBytes a = u32LeBytes b) : a = b := by
  simp only [u32LeBytes, List.cons.injEq, and_true] at h
  obtain ⟨h0, h1, h2, h3⟩ := h
  rw [← u32FromLeBytes_bytes a, h0, h1, h2, h3, u32FromLeBytes_bytes]

theorem u64LeBytes_injective {a b : UInt64} (h : u64LeBytes a = u64LeBytes b) : a = b := by
  have hdigits := congrArg (List.map UInt8.toNat) h
  simp [u64LeBytes, Nat.shiftRight_eq_div_pow] at hdigits
  have ha := a.toNat_lt
  have hb := b.toNat_lt
  apply UInt64.toNat_inj.mp
  omega

theorem selfDelimiting_u16 : SelfDelimiting (fun _ : UInt16 => True) u16LeBytes :=
  Delimited.of_length (n := 2) (fun _ _ => rfl) fun _ _ _ _ => u16LeBytes_injective

theorem selfDelimiting_u32 : SelfDelimiting (fun _ : UInt32 => True) u32LeBytes :=
  Delimited.of_length (n := 4) (fun _ _ => rfl) fun _ _ _ _ => u32LeBytes_injective

theorem selfDelimiting_u64 : SelfDelimiting (fun _ : UInt64 => True) u64LeBytes :=
  Delimited.of_length (n := 8) (fun _ _ => rfl) fun _ _ _ _ => u64LeBytes_injective

/-- Lengths below 2^16 in two bytes. -/
theorem selfDelimiting_length16 :
    SelfDelimiting (fun n : Nat => n < 2 ^ 16) fun n => u16LeBytes (UInt16.ofNat n) :=
  selfDelimiting_u16.comap (fun _ _ => trivial) fun n n' hn hn' h => by
    have hsame := congrArg UInt16.toNat h
    rwa [UInt16.toNat_ofNat_of_lt' hn, UInt16.toNat_ofNat_of_lt' hn'] at hsame

/-- Lengths below 2^64 in eight bytes. -/
theorem selfDelimiting_length64 :
    SelfDelimiting (fun n : Nat => n < 2 ^ 64) fun n => u64LeBytes (UInt64.ofNat n) :=
  selfDelimiting_u64.comap (fun _ _ => trivial) fun n n' hn hn' h => by
    have hsame := congrArg UInt64.toNat h
    rwa [UInt64.toNat_ofNat_of_lt' hn, UInt64.toNat_ofNat_of_lt' hn'] at hsame

end LumioVoxel
