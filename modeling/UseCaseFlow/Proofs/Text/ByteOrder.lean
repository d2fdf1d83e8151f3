import Mathlib.Data.String.Basic

/-!
# The order of bytes

Text is ordered by code points. UTF-8 keeps that order: text comes before other text exactly if its
bytes do, as no character is written as the start of another one and smaller characters are written
with smaller bytes.
-/

namespace UseCaseFlow.Text

def utf8Bytes (s : String) : List UInt8 :=
  s.toUTF8.data.toList

theorem utf8Bytes_eq_flatMap (s : String) :
    utf8Bytes s = s.toList.flatMap String.utf8EncodeChar := by
  rw [utf8Bytes, String.toUTF8_eq_toByteArray, ← String.utf8Encode_toList, List.utf8Encode,
    List.data_toByteArray]

/-- The first bytes come before the second ones, whatever follows them. -/
def Precedes (first second : List UInt8) : Prop :=
  ∀ rest rest', first ++ rest < second ++ rest'

theorem Precedes.of_head {a b : UInt8} (h : a.toNat < b.toNat) (first second : List UInt8) :
    Precedes (a :: first) (b :: second) := by
  intro rest rest'
  simp [List.cons_lt_cons_iff, UInt8.lt_iff_toNat_lt, h]

/-- The higher bits come first, and the lowest six bits only matter if the others are equal. -/
theorem Precedes.append_lowest {v w : Nat} (h : v < w) (lead : Nat → List UInt8)
    (hlead : v / 64 < w / 64 → Precedes (lead (v / 64)) (lead (w / 64))) :
    Precedes (lead (v / 64) ++ [UInt8.ofNat (v % 64 + 128)])
      (lead (w / 64) ++ [UInt8.ofNat (w % 64 + 128)]) := by
  intro rest rest'
  simp only [List.append_assoc, List.singleton_append]
  by_cases hhigh : v / 64 < w / 64
  · exact hlead hhigh _ _
  · have hsame : v / 64 = w / 64 := by omega
    rw [hsame]
    apply List.append_left_lt
    simp [List.cons_lt_cons_iff, UInt8.lt_iff_toNat_lt]
    omega

section Lengths

variable {v w : Nat} (h : v < w)

include h

private theorem precedes_twoBytes (hw : w ≤ 2047) :
    Precedes [UInt8.ofNat (v / 64 % 32 + 192), UInt8.ofNat (v % 64 + 128)]
      [UInt8.ofNat (w / 64 % 32 + 192), UInt8.ofNat (w % 64 + 128)] := by
  apply Precedes.append_lowest h fun n => [UInt8.ofNat (n % 32 + 192)]
  intro hlead
  apply Precedes.of_head
  simp
  omega

private theorem precedes_threeBytes (hw : w ≤ 65535) :
    Precedes [UInt8.ofNat (v / 4096 % 16 + 224), UInt8.ofNat (v / 64 % 64 + 128),
        UInt8.ofNat (v % 64 + 128)]
      [UInt8.ofNat (w / 4096 % 16 + 224), UInt8.ofNat (w / 64 % 64 + 128),
        UInt8.ofNat (w % 64 + 128)] := by
  have hdiv (n : Nat) : n / 4096 = n / 64 / 64 := by omega
  rw [hdiv, hdiv]
  apply Precedes.append_lowest h
    fun n => [UInt8.ofNat (n / 64 % 16 + 224), UInt8.ofNat (n % 64 + 128)]
  intro hnext
  apply Precedes.append_lowest hnext fun n => [UInt8.ofNat (n % 16 + 224)]
  intro hlead
  apply Precedes.of_head
  simp
  omega

private theorem precedes_fourBytes (hw : w < 0x110000) :
    Precedes [UInt8.ofNat (v / 262144 % 8 + 240), UInt8.ofNat (v / 4096 % 64 + 128),
        UInt8.ofNat (v / 64 % 64 + 128), UInt8.ofNat (v % 64 + 128)]
      [UInt8.ofNat (w / 262144 % 8 + 240), UInt8.ofNat (w / 4096 % 64 + 128),
        UInt8.ofNat (w / 64 % 64 + 128), UInt8.ofNat (w % 64 + 128)] := by
  have hdiv (n : Nat) : n / 262144 = n / 64 / 64 / 64 := by omega
  have hdiv' (n : Nat) : n / 4096 = n / 64 / 64 := by omega
  rw [hdiv, hdiv, hdiv', hdiv']
  apply Precedes.append_lowest h fun n => [UInt8.ofNat (n / 64 / 64 % 8 + 240),
    UInt8.ofNat (n / 64 % 64 + 128), UInt8.ofNat (n % 64 + 128)]
  intro hsecond
  apply Precedes.append_lowest hsecond
    fun n => [UInt8.ofNat (n / 64 % 8 + 240), UInt8.ofNat (n % 64 + 128)]
  intro hfirst
  apply Precedes.append_lowest hfirst fun n => [UInt8.ofNat (n % 8 + 240)]
  intro hlead
  apply Precedes.of_head
  simp
  omega

end Lengths

theorem precedes_utf8EncodeChar {c d : Char} (h : c < d) :
    Precedes (String.utf8EncodeChar c) (String.utf8EncodeChar d) := by
  have hval : c.val.toNat < d.val.toNat := h
  have hbound : d.val.toNat < 0x110000 := by
    have hvalid := d.valid
    simp only [UInt32.isValidChar, Nat.isValidChar] at hvalid
    omega
  simp only [String.utf8EncodeChar]
  generalize c.val.toNat = v at *
  generalize d.val.toNat = w at *
  split_ifs
  any_goals omega
  · exact .of_head (by simp; omega) _ _
  · exact .of_head (by simp; omega) _ _
  · exact .of_head (by simp; omega) _ _
  · exact .of_head (by simp; omega) _ _
  · exact precedes_twoBytes hval (by omega)
  · exact .of_head (by simp; omega) _ _
  · exact .of_head (by simp; omega) _ _
  · exact precedes_threeBytes hval (by omega)
  · exact .of_head (by simp; omega) _ _
  · exact precedes_fourBytes hval hbound

theorem flatMap_utf8EncodeChar_lt {cs ds : List Char} (h : cs < ds) :
    cs.flatMap String.utf8EncodeChar < ds.flatMap String.utf8EncodeChar := by
  induction cs generalizing ds with
  | nil =>
    cases ds with
    | nil => simp at h
    | cons d ds =>
      have hne : String.utf8EncodeChar d ≠ [] := by simp
      cases hd : String.utf8EncodeChar d with
      | nil => contradiction
      | cons b bs => simp [hd]
  | cons c cs ih =>
    cases ds with
    | nil => simp at h
    | cons d ds =>
      rw [List.flatMap_cons, List.flatMap_cons]
      rcases List.cons_lt_cons_iff.mp h with hlt | ⟨rfl, hrest⟩
      · exact precedes_utf8EncodeChar hlt _ _
      · exact List.append_left_lt (ih hrest)

theorem utf8Bytes_lt_of_lt {s t : String} (h : s < t) : utf8Bytes s < utf8Bytes t := by
  rw [utf8Bytes_eq_flatMap, utf8Bytes_eq_flatMap]
  exact flatMap_utf8EncodeChar_lt (String.lt_iff_toList_lt.mp h)

/-- Text is ordered as its bytes are. -/
theorem utf8Bytes_lt_iff {s t : String} : utf8Bytes s < utf8Bytes t ↔ s < t := by
  refine ⟨fun h => ?_, utf8Bytes_lt_of_lt⟩
  rcases lt_trichotomy s t with hlt | rfl | hgt
  · exact hlt
  · exact absurd h (List.lt_irrefl _)
  · exact absurd h (List.lt_asymm (utf8Bytes_lt_of_lt hgt))

theorem utf8Bytes_le_iff {s t : String} : utf8Bytes s ≤ utf8Bytes t ↔ s ≤ t := by
  rw [← not_lt, ← utf8Bytes_lt_iff]
  rfl

end UseCaseFlow.Text
