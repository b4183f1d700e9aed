import ThemeSheet.Preset.Stylesheet
import ThemeSheet.Proofs.Css.Judging
import ThemeSheet.Proofs.Css.Written
import ThemeSheet.Proofs.Number.Length
import ThemeSheet.Proofs.Preset.Safety
import ThemeSheet.Proofs.Tree.Content

/-!
# Spelling what stands in a tree

Of all values only integers have a spelling that may be refused. So the spelling of a tree is
refused only if that of one of its integers is, and the same holds of whatever is spelled in
compiling: slugs, the values of declarations, and the leaves of the `custom` setting with the ways
to them. A proper tree is gone through to its end.

Which refusals there may be is a parameter. If none is allowed, everything is spelled. A class of
texts is another one: what is spelled from texts of the class belongs to it, so that it can be said
what the spelling of a tree is like.

## Main definitions

* `Content.spelled`: integers that are spelled but for allowed reasons, texts of a class, and
  numbers of binary64;
* `SpelledIn`, of computations that give a text of a class.

## Main results

* `Value.HasContent.spelling`, `Value.HasContent.cssText`;
* `Value.HasContent.flatten`: what becomes of the `custom` setting.
-/

namespace ThemeSheet

open Result (FailsOnly Meets failsOnly_ok meets_ok meets_error)

variable {allowed : Refusal → Prop} {texts : TextClass}

/-! ### Integers -/

/-- An integer that can be written is spelled. -/
theorem integerSpelling_of_intText? {n : Int} {s : String} (h : Decimal.intText? n = some s) :
    integerSpelling n = .ok s := by
  unfold integerSpelling
  rw [h]

/-- An integer that cannot be written is refused for that reason. -/
theorem failsOnly_integerSpelling (h : allowed .integerTooLong) (n : Int) :
    FailsOnly allowed (integerSpelling n) := by
  unfold integerSpelling
  cases Decimal.intText? n with
  | none => exact meets_error h
  | some s => exact failsOnly_ok s

theorem failsOnly_integerSpelling_of_lt {n : Int}
    (h : n.natAbs < 10 ^ Decimal.integerDigitLimit) : FailsOnly allowed (integerSpelling n) := by
  rw [integerSpelling_of_intText? (Decimal.intText?_of_lt_ten_pow h)]
  exact failsOnly_ok _

/-- An integer is spelled, or has too many digits. -/
theorem failsOnly_integerSpelling_of_long {n : Int}
    (h : 10 ^ Decimal.integerDigitLimit ≤ n.natAbs → allowed .integerTooLong) :
    FailsOnly allowed (integerSpelling n) := by
  by_cases hlong : n.natAbs < 10 ^ Decimal.integerDigitLimit
  · exact failsOnly_integerSpelling_of_lt hlong
  · exact failsOnly_integerSpelling (h (Nat.not_lt.mp hlong)) n

/-- A computation gives a text of a class, or is refused for a reason that is allowed. -/
abbrev SpelledIn (allowed : Refusal → Prop) (texts : TextClass) (x : Except Refusal String) :
    Prop :=
  Meets allowed (fun s => texts.mem s.toList) x

/-- The digits of an integer are not more than an integer may have, and its sign stands apart. -/
theorem spelledIn_integerSpelling {n : Int} (h : FailsOnly allowed (integerSpelling n)) :
    SpelledIn allowed texts (integerSpelling n) := by
  refine ⟨h.refused, fun s hs => ?_⟩
  have hdigits : ∀ most, 0 < most → n.natAbs < Nat.pow 10 most →
      (Nat.toDigits 10 n.natAbs).length ≤ most := fun _ hmost =>
    (Nat.length_toDigits_le_iff (b := 10) (by decide) hmost).mpr
  unfold integerSpelling Decimal.intText? at hs
  split at hs
  next found hfound =>
    split at hfound
    next hlt =>
      cases hfound
      cases hs
      have hlength := hdigits _ (by decide) hlt
      rw [Decimal.toList_toString_int, Decimal.withSign]
      split
      · exact TextClass.mem_cons (by decide) (texts.short _ hlength)
      · exact texts.short _ hlength
    next => cases hfound
  next => cases hs

namespace Content

/-- Integers that are spelled but for allowed reasons, texts of a class, and numbers of
binary64. -/
def spelled (allowed : Refusal → Prop) (texts : TextClass) : Content where
  key
    | .text s => texts.mem s.toList
    | .int n => FailsOnly allowed (integerSpelling n)
    | .float x => x.Bounded
    | .moment m => texts.mem m.call.toList
    | _ => True
  leaf
    | .text s => texts.mem s.toList
    | .int n => FailsOnly allowed (integerSpelling n)
    | .float x => x.Bounded
    | .moment m => texts.mem m.text.toList ∧ texts.mem m.call.toList
    | _ => True
  name s h := texts.digitless s.toList h
  flag _ := True.intro
  version := by
    have htext : Decimal.intText? 2 = some (toString (2 : Int)) :=
      Decimal.intText?_of_lt (by decide : (2 : Int).natAbs < 2 ^ 2) (by decide)
    show FailsOnly allowed (integerSpelling 2)
    rw [integerSpelling_of_intText? htext]
    exact failsOnly_ok _

end Content

/-! ### Keys -/

namespace Key

variable {k : Key}

theorem spelledIn_innerSpelling (h : (Content.spelled allowed texts).key k) :
    SpelledIn allowed texts k.innerSpelling := by
  cases k with
  | text s => exact meets_ok (TextClass.mem_quoted h)
  | int n =>
    show SpelledIn allowed texts (integerSpelling n)
    exact spelledIn_integerSpelling (h : FailsOnly allowed (integerSpelling n))
  | float x => exact meets_ok (texts.short _ (Decimal.length_text_le h))
  | moment m => exact meets_ok h
  | null => exact meets_ok (texts.short _ (by decide))
  | bool b => cases b <;> exact meets_ok (texts.short _ (by decide))

theorem failsOnly_spelling (h : (Content.spelled allowed texts).key k) :
    FailsOnly allowed k.spelling := by
  cases k with
  | int n => exact h
  | _ => exact failsOnly_ok _

theorem failsOnly_ofKey (h : (Content.spelled allowed texts).key k) :
    FailsOnly allowed (Slug.ofKey k) :=
  (failsOnly_spelling h).bind fun _ => failsOnly_ok _

end Key

/-! ### Values -/

namespace Value

variable {v : Value}

/-- Parts with commas between them, in brackets. -/
theorem mem_brackets {opening closing : String} {parts : List String}
    (hopening : opening.toList.all Css.separates = true)
    (hclosing : closing.toList.all Css.separates = true)
    (h : ∀ part ∈ parts, texts.mem part.toList) :
    texts.mem (opening ++ ", ".intercalate parts ++ closing).toList := by
  have hopened := TextClass.mem_separators_append hopening (TextClass.mem_intercalate h)
  have hclosed := TextClass.mem_append_separators hclosing hopened
  simpa using hclosed

mutual

theorem HasContent.innerSpelling (around : List Mark) (v : Value)
    (h : v.HasContent (.spelled allowed texts)) :
    SpelledIn allowed texts (v.innerSpelling around) := by
  match v with
  | .null => exact meets_ok (texts.short _ (by decide))
  | .bool b => cases b <;> exact meets_ok (texts.short _ (by decide))
  | .int n =>
    rw [Value.innerSpelling]
    exact spelledIn_integerSpelling (h : FailsOnly allowed (integerSpelling n))
  | .float x => exact meets_ok (texts.short _ (Decimal.length_text_le h))
  | .moment m => exact meets_ok h.2
  | .text s => exact meets_ok (TextClass.mem_quoted h)
  | .list vs mark =>
    obtain ⟨rfl, hvs⟩ := hasContent_list.mp h
    rw [Value.innerSpelling, Mark.recurs_none, if_neg Bool.false_ne_true]
    have hparts := meets_itemSpellings (Mark.within none around) vs hvs
    exact hparts.bind fun parts hparts => meets_ok (mem_brackets (by decide) (by decide) hparts)
  | .map es mark =>
    obtain ⟨rfl, hes⟩ := hasContent_map.mp h
    rw [Value.innerSpelling, Mark.recurs_none, if_neg Bool.false_ne_true]
    have hparts := meets_entrySpellings (Mark.within none around) es fun e he =>
      ⟨hes.key e he, hes.value e he⟩
    exact hparts.bind fun parts hparts => meets_ok (mem_brackets (by decide) (by decide) hparts)

theorem meets_itemSpellings (around : List Mark) (vs : List Value)
    (h : ∀ v ∈ vs, v.HasContent (.spelled allowed texts)) :
    Meets allowed (fun parts => ∀ part ∈ parts, texts.mem part.toList)
      (itemSpellings around vs) := by
  match vs with
  | [] => exact meets_ok (List.forall_mem_nil _)
  | v :: vs =>
    obtain ⟨hv, hvs⟩ := List.forall_mem_cons.mp h
    exact (HasContent.innerSpelling around v hv).bind fun _ hpart =>
      (meets_itemSpellings around vs hvs).bind fun _ hparts =>
        meets_ok (List.forall_mem_cons.mpr ⟨hpart, hparts⟩)

theorem meets_entrySpellings (around : List Mark) (es : List (Key × Value))
    (h : ∀ e ∈ es,
      (Content.spelled allowed texts).key e.1 ∧ e.2.HasContent (.spelled allowed texts)) :
    Meets allowed (fun parts => ∀ part ∈ parts, texts.mem part.toList)
      (entrySpellings around es) := by
  match es with
  | [] => exact meets_ok (List.forall_mem_nil _)
  | (k, v) :: es =>
    obtain ⟨⟨hk, hv⟩, hes⟩ := List.forall_mem_cons.mp h
    exact (Key.spelledIn_innerSpelling hk).bind fun key hkey =>
      (HasContent.innerSpelling around v hv).bind fun part hpart =>
        (meets_entrySpellings around es hes).bind fun _ hparts => by
          have hentry := texts.append_cons ':' _ _ (by decide) hkey
            (TextClass.mem_cons (c := ' ') (by decide) hpart)
          refine meets_ok (List.forall_mem_cons.mpr ⟨?_, hparts⟩)
          simpa using hentry

end

/-- **The spelling of a tree is refused only if that of one of its integers is.** -/
theorem HasContent.spelling (h : v.HasContent (.spelled allowed texts)) :
    SpelledIn allowed texts v.spelling := by
  cases v with
  | text s => exact meets_ok h
  | moment m => exact meets_ok h.1
  | _ => exact HasContent.innerSpelling [] _ h

theorem HasContent.ofValue (h : v.HasContent (.spelled allowed texts)) :
    FailsOnly allowed (Slug.ofValue v) :=
  h.spelling.bind fun _ _ => failsOnly_ok _

/-- An integral number is written as the integer it is. -/
theorem HasContent.cssText (h : v.HasContent (.spelled allowed texts)) :
    SpelledIn allowed texts (ThemeSheet.cssText v) := by
  unfold ThemeSheet.cssText
  split
  next x =>
    split
    · refine spelledIn_integerSpelling ?_
      rw [Css.integerSpelling_truncate (Binary64.Bounded.inRange h)]
      exact failsOnly_ok _
    · exact meets_ok (texts.short _ (Decimal.length_text_le h))
  next => exact h.spelling

/-! ### Custom settings -/

/-- All values in a list by name are of some content. -/
def LeavesHaveContent (c : Content) (leaves : List (String × Value)) : Prop :=
  ∀ leaf ∈ leaves, leaf.2.HasContent c

theorem LeavesHaveContent.put {c : Content} {leaves : List (String × Value)} (name : String)
    (hv : v.HasContent c) (h : LeavesHaveContent c leaves) :
    LeavesHaveContent c (Named.put name v leaves) := by
  intro leaf hleaf
  rcases Named.mem_put hleaf with rfl | hleaf
  · exact hv
  · exact h leaf hleaf

theorem LeavesHaveContent.putAll {c : Content} {leaves new : List (String × Value)}
    (h : LeavesHaveContent c leaves) (hnew : LeavesHaveContent c new) :
    LeavesHaveContent c (Named.putAll leaves new) :=
  List.foldlRecOn new _ h fun _ hdone entry hentry => hdone.put entry.1 (hnew entry hentry)

mutual

theorem meets_flattenEntries (start token : String) (around : List Mark)
    (done : List (String × Value)) (es : List (Key × Value))
    (hdone : LeavesHaveContent (.spelled allowed texts) done)
    (h : ∀ e ∈ es,
      (Content.spelled allowed texts).key e.1 ∧ e.2.HasContent (.spelled allowed texts)) :
    Meets allowed (LeavesHaveContent (.spelled allowed texts))
      (flattenEntries start token around done es) := by
  match es with
  | [] => exact meets_ok hdone
  | (k, v) :: es =>
    obtain ⟨⟨hk, hv⟩, hes⟩ := List.forall_mem_cons.mp h
    exact (Key.failsOnly_ofKey hk).bind fun slug =>
      (meets_flattenValue (start ++ slug) token around done v hdone hv).bind fun done' hdone' =>
        meets_flattenEntries start token around done' es hdone' hes

theorem meets_flattenValue (name token : String) (around : List Mark)
    (done : List (String × Value)) (v : Value)
    (hdone : LeavesHaveContent (.spelled allowed texts) done)
    (h : v.HasContent (.spelled allowed texts)) :
    Meets allowed (LeavesHaveContent (.spelled allowed texts))
      (flattenValue name token around done v) := by
  match v with
  | .map es mark =>
    obtain ⟨rfl, hes⟩ := hasContent_map.mp h
    rw [flattenValue, Mark.recurs_none, if_neg Bool.false_ne_true]
    exact (meets_flattenEntries (name ++ token) token _ [] es (List.forall_mem_nil _)
      fun e he => ⟨hes.key e he, hes.value e he⟩).bind
        fun _ hinner => meets_ok (hdone.putAll hinner)
  | .list _ _ | .null | .bool _ | .int _ | .float _ | .moment _ | .text _ =>
    exact meets_ok (hdone.put name h)

end

/-- **The leaves of a tree** are parts of it; a proper tree is gone through to its end. -/
theorem HasContent.flatten (h : v.HasContent (.spelled allowed texts)) (start token : String) :
    Meets allowed (LeavesHaveContent (.spelled allowed texts))
      (ThemeSheet.flatten start token v) := by
  unfold ThemeSheet.flatten
  split
  next es mark =>
    have hes := (hasContent_map.mp h).2
    exact meets_flattenEntries start token _ [] es (List.forall_mem_nil _)
      fun e he => ⟨hes.key e he, hes.value e he⟩
  next => exact meets_ok (List.forall_mem_nil _)

end Value

end ThemeSheet
