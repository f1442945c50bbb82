import NifBindings.Proofs.Markup.Tags

/-!
# Assignments of tags

Behind its name, a tag should have nothing but assignments of quoted values to distinct keys. All of
them are read then. Reading never complains about anything else: what is broken or repeated is left
out, and the attributes of the element are the assignments that are left, in their order and with
their values resolved. Only a value that cannot be resolved is an error.
-/

namespace NifBindings

open Markup

namespace Markup

/-- Whether a text consists of assignments of quoted values to keys, with any blanks around their
parts. A key may have all characters but blanks and, behind its first one, equals signs. -/
inductive WritesAssignments : List (List Char × List Char) → List Char → Prop
  | nil {text : List Char} (hblank : IsBlank text) : WritesAssignments [] text
  | cons {assignments : List (List Char × List Char)} {first quote : Char}
      {front tail middle back value text : List Char} (hfront : IsBlank front)
      (hfirst : isMarkupBlank first = false) (htail : ∀ c ∈ tail, isKeyChar c = true)
      (hmiddle : IsBlank middle) (hback : IsBlank back) (hquote : isQuote quote = true)
      (hvalue : quote ∉ value) (h : WritesAssignments assignments text) :
      WritesAssignments ((first :: tail, value) :: assignments)
        (front ++ first :: tail ++ middle ++ '=' :: back ++ quote :: value ++ quote :: text)

/-- Whether a text consists of assignments with distinct keys. -/
def IsAttributeList (text : List Char) : Prop :=
  ∃ assignments, WritesAssignments assignments text ∧ (assignments.map Prod.fst).Nodup

variable {assignments : List (List Char × List Char)} {text : List Char}

/-- A text that consists of assignments is blank, or begins with one in front of others. -/
theorem WritesAssignments.cases_finds (h : WritesAssignments assignments text) :
    (assignments = [] ∧ IsBlank text) ∨ ∃ key value others rest,
      assignments = (key, value) :: others ∧ FindsAssignment text key value rest ∧
        WritesAssignments others rest := by
  cases h with
  | nil hblank => exact .inl ⟨rfl, hblank⟩
  | cons hfront hfirst htail hmiddle hback hquote hvalue h =>
    exact .inr ⟨_, _, _, _, rfl,
      findsAssignment_append hfront hfirst htail hmiddle hback hquote hvalue, h⟩

/-- Assignments of distinct new keys are read as they are written. -/
theorem WritesAssignments.readAssignments_eq (h : WritesAssignments assignments text)
    {seen : List (List Char)} (hnodup : (assignments.map Prod.fst).Nodup)
    (hseen : ∀ assignment ∈ assignments, assignment.1 ∉ seen) :
    readAssignments seen text = assignments := by
  induction h generalizing seen with
  | nil hblank => exact readAssignments_blank hblank
  | @cons assignments first quote front tail middle back value text hfront hfirst htail hmiddle
      hback hquote hvalue h ih =>
    rw [List.map_cons, List.nodup_cons] at hnodup
    obtain ⟨hkey, hrest⟩ := List.forall_mem_cons.mp hseen
    have hfinds := @findsAssignment_append _ text _ _ _ _ _ _ hfront hfirst htail hmiddle hback
      hquote hvalue
    rw [hfinds.readAssignments_eq hkey, ih hnodup.2]
    intro assignment hassignment
    rw [List.mem_cons, not_or]
    refine ⟨fun hsame => hnodup.1 ?_, hrest assignment hassignment⟩
    exact List.mem_map.mpr ⟨assignment, hassignment, hsame⟩

/-- The keys that are read are distinct and new. -/
theorem nodup_readAssignments (seen : List (List Char)) (text : List Char) :
    ((readAssignments seen text).map Prod.fst).Nodup ∧
      ∀ assignment ∈ readAssignments seen text, assignment.1 ∉ seen := by
  fun_induction readAssignments seen text with
  | case1 | case2 | case5 | case6 => exact ⟨List.nodup_nil, nofun⟩
  | case3 seen text c afterStart hkey d afterEquals hequals hmissing ih => exact ih
  | case4 seen text c afterStart hkey key d afterEquals hequals hsign hseen ih => exact ih
  | case7 seen text c afterStart hkey key d afterEquals hequals hsign hseen quote body hvalue hquote
      e next hclose ih =>
    obtain ⟨hnodup, hfresh⟩ := ih
    refine ⟨List.nodup_cons.mpr ⟨fun hmem => ?_, hnodup⟩, List.forall_mem_cons.mpr
      ⟨hseen, fun assignment hassignment hmem =>
        hfresh assignment hassignment (List.mem_cons_of_mem key hmem)⟩⟩
    obtain ⟨assignment, hassignment, hsame⟩ := List.mem_map.mp hmem
    exact hfresh assignment hassignment (List.mem_cons.mpr (.inl hsame))
  | case8 seen text c afterStart hkey key d afterEquals hequals hsign hseen quote body hvalue hquote
      ih =>
    exact ⟨ih.1, fun assignment hassignment hmem =>
      ih.2 assignment hassignment (List.mem_cons_of_mem key hmem)⟩

/-- All of a text is read exactly if it consists of assignments with distinct keys. -/
theorem writesAssignments_readAssignments_iff :
    WritesAssignments (readAssignments [] text) text ↔ IsAttributeList text := by
  constructor
  · exact fun h => ⟨_, h, (nodup_readAssignments [] text).1⟩
  · rintro ⟨assignments, hwrites, hnodup⟩
    rwa [hwrites.readAssignments_eq hnodup fun _ _ => List.not_mem_nil]

/-- Assignments whose values can be resolved assign something. -/
theorem exists_assigns (h : ∀ assignment ∈ assignments, ∃ value, resolve assignment.2 = .ok value) :
    ∃ entries, List.Forall₂ Assigns entries assignments := by
  induction assignments with
  | nil => exact ⟨[], .nil⟩
  | cons assignment assignments ih =>
    obtain ⟨⟨value, hvalue⟩, hrest⟩ := List.forall_mem_cons.mp h
    obtain ⟨entries, hentries⟩ := ih hrest
    refine ⟨(String.ofList assignment.1, String.ofList value) :: entries, .cons ⟨?_, ?_⟩ hentries⟩
    · exact String.toList_ofList.symm
    · rwa [String.toList_ofList]

/-- Distinct keys assign to distinct attributes, and the other way round. -/
theorem nodup_iff_of_assigns {entries : List (String × String)}
    (h : List.Forall₂ Assigns entries assignments) :
    (entries.map Prod.fst).Nodup ↔ (assignments.map Prod.fst).Nodup := by
  have hkeys : assignments.map Prod.fst = (entries.map Prod.fst).map String.toList := by
    induction h with
    | nil => rfl
    | cons hassigns _ ih => rw [List.map_cons, ih, hassigns.1]; rfl
  rw [hkeys, List.nodup_map_iff fun _ _ hsame => String.toList_inj.mp hsame]

end Markup

/-- Assignments give attributes exactly if all of their values can be resolved. -/
theorem Attributes.exists_ofAssignments_iff {assignments : List (List Char × List Char)} :
    (∃ attributes, ofAssignments assignments = .ok attributes) ↔
      ∀ assignment ∈ assignments, ∃ value, resolve assignment.2 = .ok value := by
  unfold ofAssignments
  refine exists_foldlM_iff fun attributes assignment => ?_
  simp only [bind_eq_ok_iff, mapError_eq_ok_iff]
  constructor
  · rintro ⟨next, value, hvalue, -⟩
    exact ⟨value, hvalue⟩
  · rintro ⟨value, hvalue⟩
    exact ⟨_, value, hvalue, rfl⟩

/-- The attributes of assignments with distinct keys are these, in order, with their values
resolved. -/
theorem Attributes.ofAssignments_eq_ok_iff {assignments : List (List Char × List Char)}
    {attributes : Attributes} (hnodup : (assignments.map Prod.fst).Nodup) :
    ofAssignments assignments = .ok attributes ↔
      List.Forall₂ Assigns attributes.entries assignments := by
  refine ⟨fun h => ?_, ofAssignments_of_assigns⟩
  obtain ⟨entries, hassigns⟩ := exists_assigns (exists_ofAssignments_iff.mp ⟨attributes, h⟩)
  let map : Attributes := ⟨entries, (nodup_iff_of_assigns hassigns).mpr hnodup⟩
  have hmap : ofAssignments assignments = .ok map := ofAssignments_of_assigns hassigns
  rw [Except.ok.inj (h.symm.trans hmap)]
  exact hassigns

end NifBindings
