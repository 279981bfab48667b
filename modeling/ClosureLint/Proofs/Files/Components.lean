import ClosureLint.ConfigFile
import ClosureLint.Proofs.Files.Order
import Mathlib

/-! The components of a path. They come from the stretches between its slashes, and joining a name
to a path adds the name to them. -/

namespace ClosureLint

/-! ### The stretches of a path -/

section Split

open String

/-- The stretches of a text that is read up to `r`: `l` has been split, and `m` belongs to the next
stretch. -/
theorem splitOnAux_slash (l m r : List Char) (parts : List String) :
    splitOnAux (ofList (l ++ m ++ r)) "/" ⟨utf8Len l⟩ ⟨utf8Len (l ++ m)⟩ 0 parts =
      parts.reverse ++ (r.splitOnPPrepend (· == '/') m.reverse).map ofList := by
  induction r generalizing l m parts with
  | nil =>
    have hpart := extract_of_valid l m []
    rw [← utf8Len_append] at hpart
    rw [splitOnAux, if_pos ((atEnd_of_valid (l ++ m) []).mpr rfl), hpart]
    simp
  | cons c r ih =>
    have hpart := extract_of_valid l m (c :: r)
    have hnext := next_of_valid (l ++ m) c r
    rw [show c.utf8Size = utf8Len [c] by simp, ← utf8Len_append] at hnext
    rw [← utf8Len_append] at hpart
    have hslash : Pos.Raw.get "/" 0 = '/' ∧ Pos.Raw.next "/" 0 = ⟨1⟩ ∧
        Pos.Raw.atEnd "/" ⟨1⟩ = true := by decide
    rw [splitOnAux, if_neg (mt (atEnd_of_valid (l ++ m) (c :: r)).mp (List.cons_ne_nil _ _))]
    simp only [get_of_valid, List.headD_cons, hslash, hnext, beq_iff_eq, if_true,
      List.splitOnPPrepend_cons_eq_if]
    split
    next hc =>
      -- A slash has one byte, so the part ends where the slash begins.
      have hback : Pos.Raw.unoffsetBy ⟨utf8Len (l ++ m ++ [c])⟩ ⟨1⟩ = ⟨utf8Len (l ++ m)⟩ := by
        rw [utf8Len_append (l ++ m), hc]
        rfl
      have hrest := ih (l ++ m ++ [c]) [] (ofList m :: parts)
      rw [hback, hpart]
      simpa using hrest
    next =>
      have hrest := ih l (m ++ [c]) parts
      rw [show Pos.Raw.unoffsetBy ⟨utf8Len (l ++ m)⟩ 0 = ⟨utf8Len (l ++ m)⟩ from rfl, hnext]
      simpa using hrest

/-- The stretches between slashes are those of the list of characters. -/
theorem splitOn_slash (s : String) : s.splitOn "/" = (s.toList.splitOn '/').map ofList := by
  have h := splitOnAux_slash [] [] s.toList []
  rw [splitOn, if_neg (by decide), List.splitOn_eq_splitOnP, List.splitOnP_eq_splitOnPPrepend]
  simpa using h

theorem splitOn_slash_join (s t : String) :
    (s ++ "/" ++ t).splitOn "/" = s.splitOn "/" ++ t.splitOn "/" := by
  have htext : (s ++ "/" ++ t).toList = s.toList ++ '/' :: t.toList := by simp
  rw [splitOn_slash, splitOn_slash, splitOn_slash, htext, List.splitOn_append_cons_self,
    List.map_append]

theorem splitOn_slash_append (s part : String) (h : '/' ∉ part.toList) :
    (s ++ "/" ++ part).splitOn "/" = s.splitOn "/" ++ [part] := by
  rw [splitOn_slash_join, splitOn_slash part, List.splitOn_eq_singleton h]
  simp

theorem splitOn_slash_intercalate {names : List String} (h : ∀ name ∈ names, '/' ∉ name.toList)
    (hne : names ≠ []) : ("/".intercalate names).splitOn "/" = names := by
  have htext : ("/".intercalate names).toList = ['/'].intercalate (names.map String.toList) := by
    rw [String.toList_intercalate]
    rfl
  rw [splitOn_slash, htext, List.splitOn_intercalate _ (by simpa using h) (by simpa using hne)]
  simp

theorem exists_eq_append_slash {s : String} (h : s.endsWith "/" = true) : ∃ t, s = t ++ "/" := by
  rw [← String.endsWith_toSlice, String.Slice.endsWith_string_iff, String.copy_toSlice] at h
  obtain ⟨front, hfront⟩ := h
  refine ⟨ofList front, ?_⟩
  rw [← String.toList_inj, ← hfront]
  simp

end Split

namespace Path

/-! ### Components -/

/-- What the first stretch of a path gives, also in view of whether there is another one. -/
def opening (first : String) (isLast : Bool) : List Component :=
  if first = "" then (if isLast then [] else [.root])
  else if first = "." then [.current] else (Component.ofInner? first).toList

def ofStretches : List String → List Component
  | [] => []
  | first :: rest => opening first rest.isEmpty ++ rest.filterMap Component.ofInner?

theorem components_eq (path : Path) :
    path.components = ofStretches (path.spelling.splitOn "/") := by
  rw [components]
  cases path.spelling.splitOn "/" with
  | nil => rfl
  | cons first rest =>
    simp only [ofStretches, opening]
    split
    next =>
      split
      next hrest => simp [List.isEmpty_iff.mp hrest]
      next => rfl
    next => split <;> rfl

/-- The last stretch adds its component to what the others and a slash give. -/
theorem ofStretches_concat {parts : List String} (h : parts ≠ []) (part : String) :
    ofStretches (parts ++ [part]) =
      ofStretches (parts ++ [""]) ++ (Component.ofInner? part).toList := by
  cases parts with
  | nil => exact absurd rfl h
  | cons first rest =>
    have hnone : Component.ofInner? "" = none := rfl
    have hmore : ∀ last : String, (rest ++ [last]).isEmpty = false := fun last => by simp
    cases hpart : Component.ofInner? part <;> simp [ofStretches, hmore, hnone, hpart]

/-- A slash at the end of a path adds nothing, unless it is all there is. -/
theorem ofStretches_slash {parts : List String} (h : parts ≠ [""]) :
    ofStretches (parts ++ [""]) = ofStretches parts := by
  cases parts with
  | nil => rfl
  | cons first rest =>
    have hnone : Component.ofInner? "" = none := rfl
    cases rest with
    | nil =>
      have hfirst : first ≠ "" := fun hfirst => h (by rw [hfirst])
      simp [ofStretches, opening, hnone, hfirst]
    | cons second rest =>
      rw [List.cons_append, ofStretches, List.filterMap_append]
      simp [ofStretches, hnone]

end Path

/-! ### Names -/

/-- What the name of a file or a directory is like. -/
structure IsName (name : String) : Prop where
  noSlash : '/' ∉ name.toList
  ne_empty : name ≠ ""
  ne_current : name ≠ "."
  ne_parent : name ≠ ".."

namespace IsName

variable {name : String}

theorem ofInner? (h : IsName name) : Component.ofInner? name = some (.name name) := by
  simp [Component.ofInner?, h.ne_empty, h.ne_current, h.ne_parent]

theorem startsWith_slash (h : IsName name) : name.startsWith "/" = false := by
  rw [Bool.eq_false_iff, Ne, String.startsWith_string_iff]
  exact fun hslash => h.noSlash (hslash.subset (by decide))

end IsName

namespace Path

variable {path : Path} {name : String}

theorem splitOn_ne (hpath : path.spelling ≠ "") : path.spelling.splitOn "/" ≠ [""] := by
  rw [splitOn_slash, Ne, List.map_eq_singleton_iff]
  rintro ⟨front, hfront, hempty⟩
  rw [← String.ofList_nil, String.ofList_inj] at hempty
  -- The stretches make up the path.
  have htext := @List.intercalate_splitOn _ path.spelling.toList _ _ '/'
  rw [hfront, hempty, List.intercalate_singleton] at htext
  exact hpath (String.toList_eq_nil_iff.mp htext.symm)

theorem spelling_join_ne (h : IsName name) : (path.join name).spelling ≠ "" := by
  rw [join, h.startsWith_slash, if_neg Bool.false_ne_true]
  split <;> simp [h.ne_empty]

theorem components_join (h : IsName name) (hpath : path.spelling ≠ "") :
    (path.join name).components = path.components ++ [.name name] := by
  have hname : (Component.ofInner? name).toList = [.name name] := by rw [h.ofInner?]; rfl
  rw [components_eq, components_eq, join, h.startsWith_slash, if_neg Bool.false_ne_true]
  by_cases hslash : path.spelling.endsWith "/" = true
  · obtain ⟨front, hspelling⟩ := exists_eq_append_slash hslash
    rw [hslash, Bool.or_true, if_pos rfl, hspelling, splitOn_slash_append _ _ h.noSlash,
      ofStretches_concat (by simp [splitOn_slash]), hname, ← splitOn_slash_append _ _ (by simp)]
    simp
  · rw [if_neg (by simpa [hpath] using hslash), splitOn_slash_append _ _ h.noSlash,
      ofStretches_concat (by simp [splitOn_slash]), hname, ofStretches_slash (splitOn_ne hpath)]

/-- The components of all stretches of a path, taken as further ones. -/
def inner (path : Path) : List Component :=
  (path.spelling.splitOn "/").filterMap Component.ofInner?

theorem splitOn_join (path : Path) {child : String} (h : child.startsWith "/" = false) :
    ∃ front, (path.join child).spelling.splitOn "/" = front ++ child.splitOn "/" ∧
      front.filterMap Component.ofInner? = path.inner := by
  have hnone : Component.ofInner? "" = none := rfl
  have hempty : ("" : String).splitOn "/" = [""] := by simp [splitOn_slash]
  rw [join, h, if_neg Bool.false_ne_true]
  by_cases hpath : path.spelling = ""
  · exact ⟨[], by simp [hpath], by simp [inner, hpath, hempty, hnone]⟩
  by_cases hslash : path.spelling.endsWith "/" = true
  · obtain ⟨front, hfront⟩ := exists_eq_append_slash hslash
    have hback := splitOn_slash_append front "" (by simp)
    rw [String.append_empty] at hback
    rw [hslash, Bool.or_true, if_pos rfl, inner, hfront, splitOn_slash_join, hback]
    exact ⟨_, rfl, by simp [hnone]⟩
  · rw [if_neg (by simpa [hpath] using hslash), splitOn_slash_join]
    exact ⟨_, rfl, rfl⟩

theorem inner_join {child : String} (h : child.startsWith "/" = false) :
    (path.join child).inner = path.inner ++ (Path.mk child).inner := by
  obtain ⟨front, hsplit, hfront⟩ := path.splitOn_join h
  rw [inner, hsplit, List.filterMap_append, hfront]
  rfl

theorem getLast?_splitOn_join (path : Path) {child : String} (h : child.startsWith "/" = false) :
    ((path.join child).spelling.splitOn "/").getLast? = (child.splitOn "/").getLast? := by
  obtain ⟨front, hsplit, -⟩ := path.splitOn_join h
  have hne : child.splitOn "/" ≠ [] := by simp [splitOn_slash, List.splitOn_ne_nil]
  rw [hsplit, List.getLast?_append_of_ne_nil _ hne]

end Path

namespace FileSystem

/-- The configuration file is looked up in one step. -/
theorem resolve_path (files : FileSystem) : files.resolve ConfigFile.path =
    step files.root files.workingDirectory ConfigFile.name := by
  have hparts : ConfigFile.path.spelling.splitOn "/" = [ConfigFile.name] := by
    simp only [splitOn_slash]
    cbv
  have habsolute : ConfigFile.path.isAbsolute = false := by cbv
  rw [resolve, if_neg (by decide +kernel), if_neg (by decide), if_neg (by decide), hparts,
    habsolute]
  simp

end FileSystem

end ClosureLint
