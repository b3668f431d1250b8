import TableDialects.Text.Basic

/- String literals as texts. A string is kept as its bytes, and its characters are
   decoded from them. Where each character is one byte, the bytes are the characters
   (`toList_eq_ofBytes`), which is what a check over many literals evaluates. -/
namespace TableDialects.Text

/-- The characters of a string, byte by byte where each of them is one byte. -/
def ofBytes (s : String) : Text :=
  let bytes := s.toByteArray.data.toList.map UInt8.toNat
  if bytes.all fun b => b.blt 128 then bytes.map Char.ofNat else s.toList

def byteCodes (c : Char) : List Nat := (String.utf8EncodeChar c).map UInt8.toNat

theorem byteCodes_eq {c : Char} (h : (byteCodes c).all (fun b => b.blt 128) = true) : byteCodes c = [c.toNat] := by
  have hcode : c.toNat = c.val.toNat := rfl
  unfold byteCodes String.utf8EncodeChar at h ⊢
  dsimp only at h ⊢
  rw [hcode]
  split
  · simp only [List.map_cons, List.map_nil, UInt8.toNat_ofNat']
    rw [Nat.mod_eq_of_lt (by omega)]
  · rename_i hhigh
    rw [if_neg hhigh] at h
    -- A longer form starts with a byte that is not ASCII.
    split at h
    · simp only [List.map_cons, List.all_cons, Bool.and_eq_true, UInt8.toNat_ofNat', Nat.blt_eq] at h
      omega
    · split at h <;>
        simp only [List.map_cons, List.all_cons, Bool.and_eq_true, UInt8.toNat_ofNat', Nat.blt_eq] at h <;> omega

theorem map_flatMap_byteCodes {s : Text} (h : (s.flatMap byteCodes).all (fun b => b.blt 128) = true) :
    (s.flatMap byteCodes).map Char.ofNat = s := by
  induction s with
  | nil => rfl
  | cons c s ih =>
    rw [List.flatMap_cons, List.all_append, Bool.and_eq_true] at h
    rw [List.flatMap_cons, List.map_append, ih h.2, byteCodes_eq h.1, List.map_singleton, Char.ofNat_toNat]
    rfl

theorem toList_eq_ofBytes : String.toList = ofBytes := by
  funext s
  have hbytes : s.toByteArray.data.toList.map UInt8.toNat = s.toList.flatMap byteCodes := by
    rw [← String.utf8Encode_toList, List.utf8Encode, List.toList_data_toByteArray, List.map_flatMap]
    rfl
  unfold ofBytes
  dsimp only
  split
  · rename_i h
    rw [hbytes] at h ⊢
    exact (map_flatMap_byteCodes h).symm
  · rfl

end TableDialects.Text
