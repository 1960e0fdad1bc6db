import Stencil.Component

/-!
# Element names and components

The element name of a component is its words, each behind a hyphen but the first, with the capitals
that began them made small. If the hyphens of an element name are all of that kind, then each of
them stands in front of what was a capital, and the component can be read back: take the words apart
at the hyphens and give each its capital again. A component that has a hyphen itself cannot always
be read back, for that hyphen looks like the start of a word.

The first letter is made small in the way of Unicode and the later ones in the way of ASCII. For a
component that begins with an ASCII capital the two ways are one.

Main results:

* `words_hyphenated`: taking apart what was put together with hyphens, and giving the words their
  capitals, leaves the characters as they were;
* `componentOf_elementName`: a component is read back from its element name;
* `elementName_distinct`: so components without hyphens have element names of their own, and these
  have no ASCII capital.
-/

namespace Stencil

/-- A component as it is named in a program: an ASCII capital in front, and then characters of any
kind but hyphens. -/
structure IsComponentIdentifier (name : String) : Prop where
  capital : name.toList.head?.any Char.isUpper = true
  no_hyphen : '-' ∉ name.toList

instance : DecidablePred IsComponentIdentifier := fun name =>
  decidable_of_iff (name.toList.head?.any Char.isUpper = true ∧ '-' ∉ name.toList)
    ⟨fun ⟨hcapital, hhyphen⟩ => ⟨hcapital, hhyphen⟩, fun h => ⟨h.capital, h.no_hyphen⟩⟩

/-- A word with its first character in its ASCII capital form. -/
def capitalized (word : List Char) : List Char :=
  word.modifyHead Char.toUpper

/-- The component that an element name is read back as: its words, each with a capital, in a row. -/
def componentOf (element : String) : String :=
  String.ofList ((element.toList.splitOn '-').flatMap capitalized)

-- ---------------------------------------------------------------------------
-- Single characters
-- ---------------------------------------------------------------------------

/-- The ASCII capitals are 26 in a row, so what holds of each of these holds of every capital. -/
theorem forall_isUpper (p : Char → Prop) (hletters : ∀ k : Fin 26, p (Char.ofNat (65 + k.val)))
    {c : Char} (h : c.isUpper = true) : p c := by
  have hrange : 65 ≤ c.toNat ∧ c.toNat ≤ 90 := of_decide_eq_true h
  have hletter := hletters ⟨c.toNat - 65, by omega⟩
  rwa [Nat.add_sub_cancel' hrange.1, Char.ofNat_toNat] at hletter

/-- An ASCII capital has the same small form in both ways. -/
theorem Text.lowercase_of_isUpper {c : Char} (h : c.isUpper = true) : lowercase c = [c.toLower] :=
  forall_isUpper (fun c => lowercase c = [c.toLower]) (by decide) h

/-- A capital that was made small can be made capital again. -/
theorem toUpper_toLower_of_isUpper {c : Char} (h : c.isUpper = true) : c.toLower.toUpper = c :=
  forall_isUpper (fun c => c.toLower.toUpper = c) (by decide) h

theorem not_isUpper_toLower {c : Char} (h : c.isUpper = true) : c.toLower.isUpper = false :=
  forall_isUpper (fun c => c.toLower.isUpper = false) (by decide) h

theorem toLower_ne_hyphen {c : Char} (h : c.isUpper = true) : c.toLower ≠ '-' :=
  forall_isUpper (fun c => c.toLower ≠ '-') (by decide) h

theorem not_isUpper_of_mem_hyphenated {c d : Char} (h : d ∈ hyphenated c) : d.isUpper = false := by
  rw [hyphenated] at h
  split at h
  · next hc =>
    rcases List.mem_cons.1 h with rfl | h
    · decide
    · rw [List.mem_singleton.1 h]
      exact not_isUpper_toLower hc
  · next hc =>
    rw [List.mem_singleton.1 h]
    exact Bool.not_eq_true _ ▸ hc

-- ---------------------------------------------------------------------------
-- Words
-- ---------------------------------------------------------------------------

theorem capitalized_append {front : List Char} (h : front ≠ []) (cs : List Char) :
    capitalized (front ++ cs) = capitalized front ++ cs := by
  obtain ⟨c, front, rfl⟩ := List.exists_cons_of_ne_nil h
  rfl

/-- Behind the start of a word, all that follows is found again: a capital as the start of the next
word, and any other character inside the word. -/
theorem words_hyphenated {front cs : List Char} (hfront : front ≠ []) (hhyphen : '-' ∉ front)
    (hcs : '-' ∉ cs) :
    ((front ++ cs.flatMap hyphenated).splitOn '-').flatMap capitalized =
      capitalized front ++ cs := by
  induction cs generalizing front with
  | nil =>
    rw [List.flatMap_nil, List.append_nil, List.splitOn_eq_singleton hhyphen,
      List.flatMap_singleton, List.append_nil]
  | cons c cs ih =>
    rw [List.mem_cons, not_or] at hcs
    rw [List.flatMap_cons, hyphenated]
    split
    · next hc =>
      have hword : '-' ∉ [c.toLower] := by simpa using (toLower_ne_hyphen hc).symm
      have hnext := ih (by simp) hword hcs.2
      rw [List.singleton_append] at hnext
      rw [List.cons_append, List.singleton_append, List.splitOn_append_cons_self_of_not_mem hhyphen,
        List.flatMap_cons, hnext, capitalized, capitalized, List.modifyHead_cons,
        toUpper_toLower_of_isUpper hc, List.singleton_append]
    · have hlonger : '-' ∉ front ++ [c] := by simp [hhyphen, hcs.1]
      have hnext := ih (by simp) hlonger hcs.2
      rw [← List.append_assoc, hnext, capitalized_append hfront, List.append_assoc,
        List.singleton_append]

-- ---------------------------------------------------------------------------
-- Components
-- ---------------------------------------------------------------------------

theorem IsComponentIdentifier.toList_eq {name : String} (h : IsComponentIdentifier name) :
    ∃ c cs, name.toList = c :: cs ∧ c.isUpper = true ∧ '-' ∉ cs ∧
      (elementName name).toList = c.toLower :: cs.flatMap hyphenated := by
  have hcapital := h.capital
  have hhyphen := h.no_hyphen
  cases hname : name.toList with
  | nil => simp [hname] at hcapital
  | cons c cs =>
    rw [hname] at hcapital hhyphen
    have hc : c.isUpper = true := hcapital
    have helement := elementName_cons c cs
    rw [← hname, String.ofList_toList, Text.lowercase_of_isUpper hc,
      List.singleton_append] at helement
    exact ⟨c, cs, rfl, hc, fun hmem => hhyphen (List.mem_cons_of_mem c hmem), helement⟩

/-- A component is read back from its element name. -/
theorem componentOf_elementName {name : String} (h : IsComponentIdentifier name) :
    componentOf (elementName name) = name := by
  obtain ⟨c, cs, hname, hc, hcs, helement⟩ := h.toList_eq
  have hword : '-' ∉ [c.toLower] := by simpa using (toLower_ne_hyphen hc).symm
  have hwords := words_hyphenated (by simp) hword hcs
  rw [List.singleton_append, capitalized, List.modifyHead_cons, toUpper_toLower_of_isUpper hc,
    List.singleton_append] at hwords
  rw [componentOf, helement, hwords, ← hname, String.ofList_toList]

/-- An element name has no ASCII capital. -/
theorem not_isUpper_of_mem_elementName {name : String} (h : IsComponentIdentifier name) {c : Char}
    (hc : c ∈ (elementName name).toList) : c.isUpper = false := by
  obtain ⟨first, cs, -, hfirst, -, helement⟩ := h.toList_eq
  rw [helement] at hc
  rcases List.mem_cons.1 hc with rfl | hc
  · exact not_isUpper_toLower hfirst
  · obtain ⟨d, -, hd⟩ := List.mem_flatMap.1 hc
    exact not_isUpper_of_mem_hyphenated hd

/-- **Distinct components have distinct element names.** A component that begins with an ASCII
capital and has no hyphen is read back from its element name, so it shares that name with no other
such component; and the name has no ASCII capital. -/
theorem elementName_distinct {name : String} (h : IsComponentIdentifier name) :
    componentOf (elementName name) = name ∧
      (∀ other, IsComponentIdentifier other → elementName other = elementName name → other = name) ∧
      ∀ c ∈ (elementName name).toList, c.isUpper = false := by
  refine ⟨componentOf_elementName h, fun other hother hsame => ?_, fun c =>
    not_isUpper_of_mem_elementName h⟩
  calc
    other = componentOf (elementName other) := (componentOf_elementName hother).symm
    _ = componentOf (elementName name) := by rw [hsame]
    _ = name := componentOf_elementName h

/-- Capitals in a row, a digit, an underscore, and two letters that only Unicode takes for capitals,
one of which has an ASCII letter as its small form. -/
theorem elementName_distinct_mixed :
    let name := "HTMLView2_xÉ\u212A"
    IsComponentIdentifier name ∧ elementName name = "h-t-m-l-view2_xÉ\u212A" ∧
      componentOf "h-t-m-l-view2_xÉ\u212A" = name ∧
      ∀ c ∈ "h-t-m-l-view2_xÉ\u212A".toList, c.isUpper = false := by
  intro name
  have hname : IsComponentIdentifier name := by decide
  have helement : elementName name = "h-t-m-l-view2_xÉ\u212A" := by decide +kernel
  obtain ⟨hback, -, hsmall⟩ := elementName_distinct hname
  rw [helement] at hback hsmall
  exact ⟨hname, helement, hback, hsmall⟩

/-- With a hyphen in it a component may share its element name with another one. -/
example : elementName "A-b" = elementName "AB" := by decide +kernel

end Stencil
