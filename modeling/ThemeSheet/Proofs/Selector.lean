import ThemeSheet.Proofs.Text.Joining
import ThemeSheet.Proofs.Text.Trimming
import ThemeSheet.Selector

/-!
# The algebra of selectors

Appending and scoping are operations on lists of branches that are written with commas between them.
What is written can be read back, because neither of them puts a comma into a branch: a branch of a
selector has none, and a suffix is asked to have none.

Scoping writes a blank behind each comma, so a branch is read back with a blank in front of it, and
it is the next trimming that takes this off. Trimming would take off more, if one of the two parts
of a branch were blank: the blank between them would be at an end then. With this put aside, scoping
pairs the branches of the outer selector with those of the inner one, row by row, and pairing is
associative.

## Main definitions

* `Selector.trimmed`, the branches as scoping takes them; `Selector.HasNoBlankBranch`;
* `Selector.pairs`, every outer branch before every inner one.

## Main results

* `Selector.branchesOf_appendTo`: the branches after appending;
* `Selector.trimmedOf_scopeUnder`, `Selector.length_branchesOf_scopeUnder`: those after scoping;
* `Selector.scope_scope`, `Selector.append_append`: scoping is associative, and suffixes add up;
* `Selector.scoping_and_appending`: all of this on strings.
-/

namespace ThemeSheet.Selector

variable {cs outer inner suffix : List Char} {parts : List (List Char)}

/-! ### Branches -/

/-- The branches of a selector without the blanks around them. -/
def trimmedOf (cs : List Char) : List (List Char) := (branchesOf cs).map Text.trim

theorem branchesOf_ne_nil (cs : List Char) : branchesOf cs ≠ [] := Text.splitOn_ne_nil ',' cs

theorem trimmedOf_ne_nil (cs : List Char) : trimmedOf cs ≠ [] := by
  simpa [trimmedOf] using branchesOf_ne_nil cs

theorem comma_not_mem_of_mem_branchesOf {branch : List Char} (h : branch ∈ branchesOf cs) :
    ',' ∉ branch := Text.not_mem_of_mem_splitOn h

theorem comma_not_mem_of_mem_trimmedOf {branch : List Char} (h : branch ∈ trimmedOf cs) :
    ',' ∉ branch := by
  obtain ⟨whole, hwhole, rfl⟩ := List.mem_map.mp h
  intro hcomma
  exact comma_not_mem_of_mem_branchesOf hwhole ((Text.trimBy_isInfix _ whole).subset hcomma)

/-- Branches that are written with commas between them are read back. -/
theorem branchesOf_joinWith (hne : parts ≠ []) (h : ∀ part ∈ parts, ',' ∉ part) :
    branchesOf (Text.joinWith [','] parts) = parts := Text.splitOn_joinWith hne h

/-! ### Appending -/

/-- **Appending writes the suffix behind each branch**, and makes no branch. -/
theorem branchesOf_appendTo (h : ',' ∉ suffix) (cs : List Char) :
    branchesOf (appendTo cs suffix) = (branchesOf cs).map (· ++ suffix) := by
  refine branchesOf_joinWith (by simpa using branchesOf_ne_nil cs) fun part hpart => ?_
  obtain ⟨branch, hbranch, rfl⟩ := List.mem_map.mp hpart
  simp [comma_not_mem_of_mem_branchesOf hbranch, h]

theorem appendTo_appendTo (h : ',' ∉ suffix) (cs more : List Char) :
    appendTo (appendTo cs suffix) more = appendTo cs (suffix ++ more) := by
  rw [appendTo, branchesOf_appendTo h, List.map_map, appendTo]
  simp [Function.comp_def]

/-! ### Pairs -/

/-- Every outer branch before every inner one with a blank between the two, outer by outer. -/
def pairs (outer inner : List (List Char)) : List (List Char) :=
  outer.flatMap fun o => inner.map fun i => o ++ ' ' :: i

theorem scopedBranches_eq (outer inner : List Char) :
    scopedBranches outer inner = pairs (trimmedOf outer) (trimmedOf inner) := by
  simp [scopedBranches, pairs, trimmedOf, List.flatMap_map, Function.comp_def]

theorem mem_pairs {part : List Char} {outer inner : List (List Char)} :
    part ∈ pairs outer inner ↔ ∃ o ∈ outer, ∃ i ∈ inner, o ++ ' ' :: i = part := by
  simp [pairs]

theorem pairs_ne_nil {outer inner : List (List Char)} (houter : outer ≠ []) (hinner : inner ≠ []) :
    pairs outer inner ≠ [] := by
  obtain ⟨o, ho⟩ := List.exists_mem_of_ne_nil outer houter
  obtain ⟨i, hi⟩ := List.exists_mem_of_ne_nil inner hinner
  exact List.ne_nil_of_mem (mem_pairs.mpr ⟨o, ho, i, hi, rfl⟩)

theorem length_pairs (outer inner : List (List Char)) :
    (pairs outer inner).length = outer.length * inner.length := by
  simp [pairs, List.length_flatMap]

/-- **Pairing is associative.** -/
theorem pairs_assoc (first second third : List (List Char)) :
    pairs (pairs first second) third = pairs first (pairs second third) := by
  simp only [pairs, List.flatMap_assoc, List.flatMap_map, List.map_flatMap, List.map_map,
    Function.comp_def, List.append_assoc, List.cons_append]

/-! ### Scoping -/

theorem comma_not_mem_of_mem_pairs {part : List Char}
    (h : part ∈ pairs (trimmedOf outer) (trimmedOf inner)) : ',' ∉ part := by
  obtain ⟨o, ho, i, hi, rfl⟩ := mem_pairs.mp h
  simp [comma_not_mem_of_mem_trimmedOf ho, comma_not_mem_of_mem_trimmedOf hi]

/-- Branches that are written with a comma and a blank between them are read back with the blank in
front of all but the first of them. -/
theorem branchesOf_joinWith_blank {first : List Char} (h : ∀ part ∈ first :: parts, ',' ∉ part) :
    branchesOf (Text.joinWith [',', ' '] (first :: parts)) = first :: parts.map (' ' :: ·) := by
  obtain ⟨hfirst, hparts⟩ := List.forall_mem_cons.mp h
  have hjoined : Text.joinWith [',', ' '] (first :: parts) =
      Text.joinWith [','] (first :: parts.map (' ' :: ·)) :=
    Text.joinWith_append [','] [' '] first parts
  rw [hjoined]
  refine branchesOf_joinWith (List.cons_ne_nil _ _) (List.forall_mem_cons.mpr ⟨hfirst, ?_⟩)
  rw [List.forall_mem_map]
  intro part hpart
  simp [hparts part hpart]

/-- What is read back of the branches below others, up to the blanks around them. -/
theorem trimmedOf_joinWith_blank (hne : parts ≠ []) (h : ∀ part ∈ parts, ',' ∉ part) :
    trimmedOf (Text.joinWith [',', ' '] parts) = parts.map Text.trim := by
  obtain ⟨first, parts, rfl⟩ := List.exists_cons_of_ne_nil hne
  have htrim : Text.trim ∘ (' ' :: ·) = Text.trim := by
    funext part
    exact Text.trimBy_cons_of_pos (by decide) part
  rw [trimmedOf, branchesOf_joinWith_blank h, List.map_cons, List.map_map, htrim, List.map_cons]

/-- Two branches with a blank between them have no blanks at the ends, unless one of them is
blank. -/
theorem trim_of_mem_pairs {part : List Char} (houter : [] ∉ trimmedOf outer)
    (hinner : [] ∉ trimmedOf inner) (h : part ∈ pairs (trimmedOf outer) (trimmedOf inner)) :
    Text.trim part = part := by
  obtain ⟨o, ho, i, hi, rfl⟩ := mem_pairs.mp h
  have hone := ne_of_mem_of_not_mem ho houter
  have hine := ne_of_mem_of_not_mem hi hinner
  obtain ⟨first, -, rfl⟩ := List.mem_map.mp ho
  obtain ⟨last, -, rfl⟩ := List.mem_map.mp hi
  exact Text.trimBy_append_trimBy hone hine [' ']

/-- **The branches of a selector below another are the pairs**, if none of them is blank. -/
theorem trimmedOf_scopeUnder (houter : [] ∉ trimmedOf outer) (hinner : [] ∉ trimmedOf inner) :
    trimmedOf (scopeUnder outer inner) = pairs (trimmedOf outer) (trimmedOf inner) := by
  rw [scopeUnder, scopedBranches_eq, trimmedOf_joinWith_blank
    (pairs_ne_nil (trimmedOf_ne_nil outer) (trimmedOf_ne_nil inner))
    fun part hpart => comma_not_mem_of_mem_pairs hpart]
  conv => rhs; rw [← List.map_id (pairs _ _)]
  exact List.map_congr_left fun part hpart => trim_of_mem_pairs houter hinner hpart

/-- There are as many branches as there are pairs, blank or not. -/
theorem length_branchesOf_scopeUnder (outer inner : List Char) :
    (branchesOf (scopeUnder outer inner)).length =
      (branchesOf outer).length * (branchesOf inner).length := by
  have htrimmed := congrArg List.length (trimmedOf_joinWith_blank
    (pairs_ne_nil (trimmedOf_ne_nil outer) (trimmedOf_ne_nil inner))
    fun part hpart => comma_not_mem_of_mem_pairs hpart)
  rw [← scopedBranches_eq, ← scopeUnder, scopedBranches_eq, List.length_map, length_pairs]
    at htrimmed
  simpa only [trimmedOf, List.length_map] using htrimmed

theorem scopeUnder_scopeUnder {first second third : List Char} (hfirst : [] ∉ trimmedOf first)
    (hsecond : [] ∉ trimmedOf second) (hthird : [] ∉ trimmedOf third) :
    scopeUnder (scopeUnder first second) third = scopeUnder first (scopeUnder second third) := by
  rw [scopeUnder, scopedBranches_eq, trimmedOf_scopeUnder hfirst hsecond, scopeUnder,
    scopedBranches_eq, trimmedOf_scopeUnder hsecond hthird, pairs_assoc]

/-! ### On strings -/

/-- The branches of a selector without the blanks around them. -/
def trimmed (s : String) : List String := (trimmedOf s.toList).map String.ofList

/-- No branch of a selector is made of blanks alone. -/
def HasNoBlankBranch (s : String) : Prop := "" ∉ trimmed s

instance (s : String) : Decidable (HasNoBlankBranch s) := inferInstanceAs (Decidable (¬_))

theorem nil_not_mem_trimmedOf {s : String} (h : HasNoBlankBranch s) : [] ∉ trimmedOf s.toList :=
  fun hnil => h (List.mem_map.mpr ⟨[], hnil, rfl⟩)

theorem scope_scope {a b c : String} (ha : HasNoBlankBranch a) (hb : HasNoBlankBranch b)
    (hc : HasNoBlankBranch c) : scope (scope a b) c = scope a (scope b c) := by
  rw [scope, scope, scope, scope, String.toList_ofList, String.toList_ofList,
    scopeUnder_scopeUnder (nil_not_mem_trimmedOf ha) (nil_not_mem_trimmedOf hb)
      (nil_not_mem_trimmedOf hc)]

theorem trimmed_scope {a b : String} (ha : HasNoBlankBranch a) (hb : HasNoBlankBranch b) :
    trimmed (scope a b) = (trimmed a).flatMap fun outer =>
      (trimmed b).map fun inner => outer ++ " " ++ inner := by
  rw [trimmed, scope, String.toList_ofList,
    trimmedOf_scopeUnder (nil_not_mem_trimmedOf ha) (nil_not_mem_trimmedOf hb)]
  simp [pairs, trimmed, List.map_flatMap, List.flatMap_map, Function.comp_def,
    String.append_assoc]

theorem length_branches_scope (a b : String) :
    (branches (scope a b)).length = (branches a).length * (branches b).length := by
  simp only [branches, scope, String.toList_ofList, List.length_map, length_branchesOf_scopeUnder]

theorem branches_append {suffix : String} (h : ',' ∉ suffix.toList) (s : String) :
    branches (append s suffix) = (branches s).map (· ++ suffix) := by
  rw [branches, append, String.toList_ofList, branchesOf_appendTo h]
  simp [branches, Function.comp_def]

theorem append_append {suffix : String} (h : ',' ∉ suffix.toList) (s more : String) :
    append (append s suffix) more = append s (suffix ++ more) := by
  rw [append, append, append, String.toList_ofList, appendTo_appendTo h, String.toList_append]

/-- **The laws of selectors.** Where no branch is blank, scoping is associative, and its branches
are those of the one selector before those of the other. Appending reaches every branch and makes no
new one, so one suffix after another is both at once. -/
theorem scoping_and_appending :
    (∀ a b c, HasNoBlankBranch a → HasNoBlankBranch b → HasNoBlankBranch c →
      scope (scope a b) c = scope a (scope b c)) ∧
    (∀ a b, HasNoBlankBranch a → HasNoBlankBranch b →
      trimmed (scope a b) = (trimmed a).flatMap (fun outer =>
        (trimmed b).map fun inner => outer ++ " " ++ inner) ∧
      (branches (scope a b)).length = (branches a).length * (branches b).length) ∧
    ∀ s suffix, ',' ∉ suffix.toList →
      branches (append s suffix) = (branches s).map (· ++ suffix) ∧
      ∀ more, append (append s suffix) more = append s (suffix ++ more) := by
  refine ⟨fun a b c => scope_scope, fun a b ha hb => ?_, fun s suffix h => ?_⟩
  · exact ⟨trimmed_scope ha hb, length_branches_scope a b⟩
  · exact ⟨branches_append h s, append_append h s⟩

/-- The outer selector has a tab and a line break in it, and the suffix that is appended last has a
comma of its own. -/
theorem scoping_and_appending_of_line_break :
    let a := "\tp ,\nh1"
    let b := "> .x,.y "
    (HasNoBlankBranch a ∧ HasNoBlankBranch b ∧ HasNoBlankBranch "em" ∧ ',' ∉ ":hover".toList) ∧
      scope (scope a b) "em" = scope a (scope b "em") ∧
      trimmed (scope a b) = ["p > .x", "p .y", "h1 > .x", "h1 .y"] ∧
      (branches (scope a b)).length = 2 * 2 ∧
      branches (append b ":hover") = ["> .x:hover", ".y :hover"] ∧
      append (append b ":hover") ",i" = append b ":hover,i" := by
  intro a b
  have ha : HasNoBlankBranch a := by decide +kernel
  have hb : HasNoBlankBranch b := by decide +kernel
  have hc : HasNoBlankBranch "em" := by decide +kernel
  have hsuffix : ',' ∉ ":hover".toList := by decide +kernel
  obtain ⟨hassoc, hpairs, hsuffixed⟩ := scoping_and_appending
  obtain ⟨htrimmed, hcount⟩ := hpairs a b ha hb
  obtain ⟨hbranches, hmore⟩ := hsuffixed b ":hover" hsuffix
  refine ⟨⟨ha, hb, hc, hsuffix⟩, hassoc a b "em" ha hb hc, htrimmed.trans ?_, hcount.trans ?_,
    hbranches.trans ?_, hmore ",i"⟩
  · decide +kernel
  · decide +kernel
  · decide +kernel

/-- Below a blank branch the blank between the two comes to an end of the branch. -/
example : scope (scope "" "p") "em" = "p em" ∧ scope "" (scope "p" "em") = " p em" := by
  decide +kernel

end ThemeSheet.Selector
