import Mathlib.Data.List.TakeWhile
import UseCaseFlow.Corpus.Path

/-!
# File names and joined paths

The extension of a file name is what follows the last of its dots, the stem what precedes the first
one. A name that is joined to a path is the last of the path's parts.
-/

namespace UseCaseFlow

section Names

variable {name stem extension : String}

theorem fileExtension?_append (hstem : stem ≠ "") (hdot : '.' ∉ extension.toList) :
    fileExtension? (stem ++ "." ++ extension) = some extension := by
  have hreverse : (stem ++ "." ++ extension).toList.reverse =
      extension.toList.reverse ++ '.' :: stem.toList.reverse := by
    simp
  have hextension : ∀ c ∈ extension.toList.reverse, (c != '.') = true := by
    intro c hc
    simpa using ne_of_mem_of_not_mem (List.mem_reverse.mp hc) hdot
  obtain ⟨last, front, hlast⟩ := List.exists_cons_of_ne_nil
    (show stem.toList.reverse ≠ [] by simpa using hstem)
  rw [fileExtension?, hreverse]
  simp only [List.dropWhile_append_of_pos hextension, List.takeWhile_append_of_pos hextension,
    hlast]
  simp

theorem fileExtension?_eq_some_iff :
    fileExtension? name = some extension ↔
      ∃ stem, stem ≠ "" ∧ name = stem ++ "." ++ extension ∧ '.' ∉ extension.toList := by
  constructor
  · intro h
    have hsplit := name.toList.reverse.takeWhile_append_dropWhile (p := (· != '.'))
    have hhead := name.toList.reverse.head?_dropWhile_not (· != '.')
    rw [fileExtension?] at h
    cases hdrop : name.toList.reverse.dropWhile (· != '.') with
    | nil => simp [hdrop] at h
    | cons c front =>
      cases front with
      | nil => simp [hdrop] at h
      | cons last front =>
        -- What is dropped in the reversed name starts with its last dot.
        rw [hdrop] at h hsplit hhead
        obtain rfl : c = '.' := by simpa using hhead
        obtain rfl := Option.some.inj h
        refine ⟨String.ofList (front.reverse ++ [last]), ?_, ?_, ?_⟩
        · simp
        · rw [← String.toList_inj, ← List.reverse_inj]
          exact hsplit.symm.trans (by simp)
        · intro hdot
          rw [String.toList_ofList, List.mem_reverse] at hdot
          exact absurd (List.mem_takeWhile_imp hdot) (by decide)
  · rintro ⟨stem, hstem, rfl, hdot⟩
    exact fileExtension?_append hstem hdot

example : fileExtension? ".md" = none ∧ fileExtension? "..md" = some "md" := by decide

theorem dot_not_mem_fileStem (name : String) : '.' ∉ (fileStem name).toList := by
  intro h
  rw [fileStem, String.toList_ofList] at h
  simpa using List.mem_takeWhile_imp h

theorem toList_fileStem_subset (name : String) : (fileStem name).toList ⊆ name.toList := by
  rw [fileStem, String.toList_ofList]
  exact List.takeWhile_subset _

theorem fileStem_append (h : '.' ∉ stem.toList) : fileStem (stem ++ "." ++ extension) = stem := by
  have hstem : ∀ c ∈ stem.toList, (c != '.') = true := by
    intro c hc
    simpa using ne_of_mem_of_not_mem hc h
  rw [fileStem, String.append_assoc, String.toList_append, List.takeWhile_append_of_pos hstem]
  simp

theorem eq_fileStem_append (hextension : fileExtension? name = some extension)
    (hone : name.toList.count '.' = 1) : name = fileStem name ++ "." ++ extension := by
  obtain ⟨front, -, hname, hdot⟩ := fileExtension?_eq_some_iff.mp hextension
  have hfront : '.' ∉ front.toList := by
    rw [hname] at hone
    apply List.count_eq_zero.mp
    simpa [List.count_eq_zero.mpr hdot] using hone
  rw [hname, fileStem_append hfront]

end Names

section Joined

variable {base part : String}

theorem isAbsolute_eq_false (h : '/' ∉ part.toList) : isAbsolute part = false := by
  rw [isAbsolute, beq_eq_false_iff_ne]
  intro hhead
  exact h (List.mem_of_mem_head? hhead)

theorem joinPath_eq (hbase : base ≠ "") (h : '/' ∉ part.toList) :
    (∃ front, base = front ++ "/" ∧ joinPath base part = front ++ "/" ++ part) ∨
    joinPath base part = base ++ "/" ++ part := by
  have hrelative : ¬ isAbsolute part = true := by simp [isAbsolute_eq_false h]
  rw [joinPath, if_neg hrelative]
  split
  · rename_i hlast
    exact absurd (by simpa using hlast) hbase
  · rename_i hlast
    obtain ⟨front, hfront⟩ := List.getLast?_eq_some_iff.mp hlast
    refine Or.inl ⟨String.ofList front, ?_, ?_⟩
    · rw [← String.toList_inj, hfront]
      simp
    · rw [← String.toList_inj]
      simp [hfront]
  · exact Or.inr rfl

theorem toList_joinPath (hbase : base ≠ "") (h : '/' ∉ part.toList) :
    ∃ slashes, (joinPath base part).toList = base.toList ++ (slashes ++ part.toList) ∧
      ∀ c ∈ slashes, c = '/' := by
  obtain ⟨front, hfront, hjoin⟩ | hjoin := joinPath_eq hbase h
  · refine ⟨[], ?_, by simp⟩
    rw [hjoin, hfront]
    simp
  · exact ⟨['/'], by simp [hjoin], by simp⟩

theorem joinPath_ne_empty (hbase : base ≠ "") (h : '/' ∉ part.toList) :
    joinPath base part ≠ "" := by
  obtain ⟨slashes, hjoin, -⟩ := toList_joinPath hbase h
  intro hempty
  rw [hempty] at hjoin
  have hnone : base = "" ∧ slashes = [] ∧ part = "" := by simpa using hjoin.symm
  exact hbase hnone.1

theorem isAbsolute_joinPath (hbase : base ≠ "") (h : '/' ∉ part.toList) :
    isAbsolute (joinPath base part) = isAbsolute base := by
  obtain ⟨slashes, hjoin, -⟩ := toList_joinPath hbase h
  obtain ⟨first, rest, hfirst⟩ := List.exists_cons_of_ne_nil
    (show base.toList ≠ [] by simpa using hbase)
  rw [isAbsolute, isAbsolute, hjoin, hfirst]
  rfl

theorem not_mem_joinPath {c : Char} (hslash : c ≠ '/') (hbase : base ≠ "")
    (hbaseMem : c ∉ base.toList) (h : '/' ∉ part.toList) (hpart : c ∉ part.toList) :
    c ∉ (joinPath base part).toList := by
  obtain ⟨slashes, hjoin, hslashes⟩ := toList_joinPath hbase h
  have hbetween : c ∉ slashes := fun hc => hslash (hslashes c hc)
  simp [hjoin, hbaseMem, hbetween, hpart]

theorem pathParts_append_slash (a b : String) :
    pathParts (a ++ "/" ++ b) = pathParts a ++ pathParts b := by
  have hslash : (a ++ "/" ++ b).toList = a.toList ++ '/' :: b.toList := by simp
  rw [pathParts, hslash, List.splitOn_append_cons_self, List.map_append]
  rfl

theorem pathParts_eq_singleton (h : '/' ∉ part.toList) : pathParts part = [part] := by
  rw [pathParts, List.splitOn_eq_singleton h]
  simp

/-- The part is the last one. The others are those of the base, but for an empty one after a slash
at its end. -/
theorem pathParts_joinPath (hbase : base ≠ "") (h : '/' ∉ part.toList) :
    ∃ parts last, pathParts (joinPath base part) = parts ++ [part] ∧
      pathParts base = parts ++ last ∧ (last = [] ∨ last = [""]) := by
  obtain ⟨front, hfront, hjoin⟩ | hjoin := joinPath_eq hbase h
  · refine ⟨pathParts front, [""], ?_, ?_, Or.inr rfl⟩
    · rw [hjoin, pathParts_append_slash, pathParts_eq_singleton h]
    · have hempty : base = front ++ "/" ++ "" := by rw [hfront, String.append_empty]
      rw [hempty, pathParts_append_slash]
      rfl
  · refine ⟨pathParts base, [], ?_, (List.append_nil _).symm, Or.inl rfl⟩
    rw [hjoin, pathParts_append_slash, pathParts_eq_singleton h]

end Joined

end UseCaseFlow
