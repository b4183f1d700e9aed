import ThemeSheet.Proofs.Css.Stripping
import ThemeSheet.Proofs.Text.Occurrences

/-!
# The language of safe values

The check of a value goes down into its blocks with two flags, which say whether `calc` or `var` and
whether a gradient has been entered on the way. Here the same is said without flags. A token stands
in a value inside some blocks, and whether it is admitted there is asked of the token, of the
property, and of the functions that these blocks call. A value is safe exactly if every token that
stands in it is admitted where it stands.

What a `url` function holds does not stand in the value: it is an address, and it is looked at as a
whole.

The flags say what the blocks around a token say because no block that is passed loses one of them:
a gradient, which clears the flag of `calc` and `var`, is only entered where that flag is not set.

## Main definitions

* `Css.inside`, of blocks among which there is a call of one of some functions;
* `Css.Token.StandsIn`, a token of a value with the blocks around it;
* `Css.Token.IsAdmitted`, the rules on a token in its place.

## Main results

* `Css.scheme?_eq_some_iff`, `Css.isSafeUrl_iff`: the scheme of an address, and safe addresses;
* `Css.safeToken_iff`: what the check asks of one token;
* `Css.safeTokens_iff`: what it asks of all that stand in a value;
* `Css.isSafeDeclaration_iff`: the declarations that are safe.
-/

namespace ThemeSheet.Css

/-! ### Blocks around a token -/

/-- Whether a block is a call of one of some functions. -/
def Opening.calls (names : List String) : Opening → Bool
  | .function f => names.contains (functionName f)
  | .bracket _ => false

/-- Whether one of some blocks is a call of one of some functions. -/
def inside (names : List String) (around : List Opening) : Bool := around.any (Opening.calls names)

@[simp] theorem inside_nil (names : List String) : inside names [] = false := rfl

theorem inside_concat (names : List String) (around : List Opening) (o : Opening) :
    inside names (around ++ [o]) = (inside names around || o.calls names) := by
  simp [inside]

/-- Whether a block is a call of `url`. -/
def Opening.isUrl (o : Opening) : Bool := o.calls ["url"]

/-- A token stands in a list of tokens, inside the given blocks, of which the outermost comes first.
What a `url` function holds does not stand in the list. -/
inductive Token.StandsIn (t : Token) : List Opening → List Token → Prop
  | top {ts : List Token} (h : t ∈ ts) : StandsIn t [] ts
  | inner {o : Opening} {content ts : List Token} {around : List Opening}
      (hblock : .block o content ∈ ts) (hurl : o.isUrl = false)
      (h : StandsIn t around content) : StandsIn t (o :: around) ts

/-! ### Addresses -/

/-- An address begins with a scheme: a letter and whatever may follow it, up to the first colon. -/
def HasScheme (scheme address : List Char) : Prop :=
  (∃ c rest, scheme = c :: rest ∧ c.isAlpha = true) ∧ (∀ c ∈ scheme, isSchemeChar c = true) ∧
    ∃ rest, address = scheme ++ ':' :: rest

/-- An address is not blank, and has no scheme or a safe one. -/
structure IsSafeAddress (target : String) : Prop where
  not_blank : Text.trim target.toList ≠ []
  scheme : ∀ scheme, HasScheme scheme (Text.trim target.toList) →
    String.ofList (Text.lowerAscii scheme) ∈ safeSchemes

/-- **The scheme of an address** is what it begins with, if that is one. -/
theorem scheme?_eq_some_iff {scheme address : List Char} :
    scheme? address = some scheme ↔ HasScheme scheme address := by
  constructor
  · intro h
    unfold scheme? at h
    split at h
    · cases h
    next c cs =>
      split at h
      next rest hrest =>
        split at h
        next halpha =>
          cases h
          have hsplit := List.takeWhile_append_dropWhile (p := isSchemeChar) (l := c :: cs)
          rw [hrest] at hsplit
          have hfirst : isSchemeChar c = true := by simp [isSchemeChar, halpha]
          refine ⟨⟨c, cs.takeWhile isSchemeChar, ?_, halpha⟩, fun d hd => ?_, rest, hsplit.symm⟩
          · rw [List.takeWhile_cons_of_pos hfirst]
          · exact List.all_eq_true.mp List.all_takeWhile d hd
        next => cases h
      next => cases h
  · rintro ⟨⟨c, cs, rfl, halpha⟩, hall, rest, rfl⟩
    have hcolon : isSchemeChar ':' = false := by decide
    have htake : ((c :: cs) ++ ':' :: rest).takeWhile isSchemeChar = c :: cs := by
      rw [List.takeWhile_append_of_pos hall, List.takeWhile_cons_of_neg (by simp [hcolon]),
        List.append_nil]
    have hdrop : ((c :: cs) ++ ':' :: rest).dropWhile isSchemeChar = ':' :: rest := by
      rw [List.dropWhile_append_of_pos hall, List.dropWhile_cons_of_neg (by simp [hcolon])]
    rw [List.cons_append] at htake hdrop ⊢
    unfold scheme?
    simp only [hdrop, htake, if_pos halpha]

theorem isSafeUrl_iff {target : String} : isSafeUrl target = true ↔ IsSafeAddress target := by
  rw [isSafeUrl]
  split
  next hempty =>
    exact iff_of_false Bool.false_ne_true fun h => h.not_blank (List.isEmpty_iff.mp hempty)
  next hne =>
    have hblank : Text.trim target.toList ≠ [] := fun h => hne (List.isEmpty_iff.mpr h)
    split
    next hnone =>
      refine iff_of_true rfl ⟨hblank, fun scheme hscheme => ?_⟩
      rw [scheme?_eq_some_iff.mpr hscheme] at hnone
      cases hnone
    next scheme hsome =>
      rw [List.contains_iff_mem]
      refine ⟨fun hmem => ⟨hblank, fun other hother => ?_⟩,
        fun h => h.scheme scheme (scheme?_eq_some_iff.mp hsome)⟩
      rw [scheme?_eq_some_iff.mpr hother] at hsome
      cases hsome
      exact hmem

/-- The address that a token holds: that of an address without quotes, or the only string in a `url`
function, where nothing but separators stands beside it. -/
inductive Token.HasTarget : Token → String → Prop
  | plain (target : String) : HasTarget (.atom (.url target)) target
  | quoted {f : String} {before after : List Token} {target : String}
      (hbefore : ∀ t ∈ before, t.isSeparator = true) (hafter : ∀ t ∈ after, t.isSeparator = true) :
      HasTarget (.block (.function f) (before ++ .atom (.string target) :: after)) target

theorem urlTarget?_eq_some_iff {f target : String} {content : List Token} :
    urlTarget? content = some target ↔
      (Token.block (.function f) content).HasTarget target := by
  rw [urlTarget?]
  constructor
  · intro h
    split at h
    next s hs =>
      cases h
      obtain ⟨before, after, rfl, hbefore, -, hafter⟩ := List.filter_eq_cons_iff.mp hs
      refine .quoted (fun t ht => ?_) fun t ht => ?_
      · simpa using hbefore t ht
      · simpa using List.filter_eq_nil_iff.mp hafter t ht
    next => cases h
  · intro h
    cases h with
    | quoted hbefore hafter =>
      have hfilter : ∀ ts : List Token, (∀ t ∈ ts, t.isSeparator = true) →
          ts.filter (fun t => !t.isSeparator) = [] := by
        intro ts hts
        rw [List.filter_eq_nil_iff]
        simpa using hts
      rw [List.filter_append, hfilter _ hbefore, List.nil_append,
        List.filter_cons_of_pos (by rfl), hfilter _ hafter]

/-- Whether a token is an address: one without quotes, or a `url` function. -/
def Token.isAddress : Token → Bool
  | .atom (.url _) => true
  | .block o _ => o.isUrl
  | _ => false

/-! ### Tokens in their places -/

/-- The functions that a value may call somewhere. -/
def knownFunctions : List String :=
  "url" :: (mathFunctions ++ gradientFunctions ++ colorFunctions)

/-- The rules on a token in a value of a property, inside some blocks. -/
structure Token.IsAdmitted (property : String) (around : List Opening) (t : Token) : Prop where
  /-- Nothing is broken. -/
  whole : t ≠ .atom .fault
  /-- There are no square or curly brackets. -/
  bracket : ∀ kind content, t = .block (.bracket kind) content → kind = .round
  /-- None of the four delimiters stands there. -/
  literal : ∀ s, t = .atom (.literal s) → s ∉ unsafeLiterals
  /-- No other function is called. -/
  function : ∀ f content, t = .block (.function f) content → functionName f ∈ knownFunctions
  /-- An address stands on a property that takes addresses, in no `calc` or `var`, and is safe. -/
  address : t.isAddress = true → inside mathFunctions around = false ∧
    property ∈ urlProperties ∧ ∃ target, t.HasTarget target ∧ IsSafeAddress target
  /-- A gradient stands on a property that takes gradients, in no `calc` or `var`. -/
  gradient : ∀ f content, t = .block (.function f) content → functionName f ∈ gradientFunctions →
    inside mathFunctions around = false ∧ property ∈ gradientProperties
  /-- A color function stands in a gradient. -/
  color : ∀ f content, t = .block (.function f) content → functionName f ∈ colorFunctions →
    inside gradientFunctions around = true
  /-- Parentheses stand in `calc` or `var`. -/
  group : ∀ content, t = .block (.bracket .round) content → inside mathFunctions around = true

variable {property : String} {around : List Opening} {t : Token} {ts content : List Token}

theorem urlAllowed_iff {inMath : Bool} {target : Option String} :
    urlAllowed property inMath target = true ↔ inMath = false ∧ property ∈ urlProperties ∧
      ∃ address, target = some address ∧ IsSafeAddress address := by
  cases target with
  | none => simp [urlAllowed]
  | some address => simp [urlAllowed, isSafeUrl_iff, and_assoc]

theorem isAdmitted_atom {a : Atom} : (Token.atom a).IsAdmitted property around ↔
    safeAtom property (inside mathFunctions around) a = true := by
  constructor
  · intro h
    cases a with
    | url target =>
      obtain ⟨hmath, hproperty, address, htarget, hsafe⟩ := h.address rfl
      cases htarget
      exact urlAllowed_iff.mpr ⟨hmath, hproperty, target, rfl, hsafe⟩
    | fault => exact absurd rfl h.whole
    | literal s => simpa [safeAtom] using h.literal s rfl
    | _ => rfl
  · intro h
    refine ⟨?_, by simp, ?_, by simp, ?_, by simp, by simp, by simp⟩
    · rintro ⟨⟩
      cases h
    · rintro s ⟨⟩
      simpa [safeAtom] using h
    · intro haddress
      cases a with
      | url target =>
        rw [safeAtom, urlAllowed_iff] at h
        obtain ⟨hmath, hproperty, address, ⟨⟩, hsafe⟩ := h
        exact ⟨hmath, hproperty, target, .plain target, hsafe⟩
      | _ => cases haddress

theorem isAdmitted_bracket {kind : Bracket} :
    (Token.block (.bracket kind) content).IsAdmitted property around ↔
      kind = .round ∧ inside mathFunctions around = true := by
  constructor
  · intro h
    have hkind := h.bracket kind content rfl
    subst hkind
    exact ⟨rfl, h.group content rfl⟩
  · rintro ⟨rfl, hmath⟩
    refine ⟨by simp, ?_, by simp, by simp, ?_, by simp, by simp, fun _ _ => hmath⟩
    · rintro kind content ⟨⟩
      rfl
    · rintro ⟨⟩

/-- Of which kind a function is. -/
inductive IsOfKind (f : String) : Prop
  | url (h : functionName f = "url") (hmath : functionName f ∉ mathFunctions)
      (hgradient : functionName f ∉ gradientFunctions) (hcolor : functionName f ∉ colorFunctions)
  | math (hurl : functionName f ≠ "url") (h : functionName f ∈ mathFunctions)
      (hgradient : functionName f ∉ gradientFunctions) (hcolor : functionName f ∉ colorFunctions)
  | gradient (hurl : functionName f ≠ "url") (hmath : functionName f ∉ mathFunctions)
      (h : functionName f ∈ gradientFunctions) (hcolor : functionName f ∉ colorFunctions)
  | color (hurl : functionName f ≠ "url") (hmath : functionName f ∉ mathFunctions)
      (hgradient : functionName f ∉ gradientFunctions) (h : functionName f ∈ colorFunctions)
  | unknown (hurl : functionName f ≠ "url") (hmath : functionName f ∉ mathFunctions)
      (hgradient : functionName f ∉ gradientFunctions) (hcolor : functionName f ∉ colorFunctions)

/-- **No function is of two kinds.** -/
theorem isOfKind (f : String) : IsOfKind f := by
  have hmath : ∀ n ∈ mathFunctions, n ≠ "url" ∧ n ∉ gradientFunctions ∧ n ∉ colorFunctions := by
    decide +kernel
  have hgradient : ∀ n ∈ gradientFunctions, n ≠ "url" ∧ n ∉ colorFunctions := by decide +kernel
  have hcolor : ∀ n ∈ colorFunctions, n ≠ "url" := by decide +kernel
  by_cases h : functionName f ∈ mathFunctions
  · exact .math (hmath _ h).1 h (hmath _ h).2.1 (hmath _ h).2.2
  by_cases h' : functionName f ∈ gradientFunctions
  · exact .gradient (hgradient _ h').1 h h' (hgradient _ h').2
  by_cases h'' : functionName f ∈ colorFunctions
  · exact .color (hcolor _ h'') h h' h''
  by_cases hurl : functionName f = "url"
  · exact .url hurl h h' h''
  · exact .unknown hurl h h' h''

theorem isUrl_function {f : String} :
    (Opening.function f).isUrl = decide (functionName f = "url") := by
  simp [Opening.isUrl, Opening.calls]

/-- **The rules on a function**, by its kind. -/
theorem isAdmitted_function {f : String} :
    (Token.block (.function f) content).IsAdmitted property around ↔
      functionName f ∈ knownFunctions ∧
      (functionName f = "url" →
        urlAllowed property (inside mathFunctions around) (urlTarget? content) = true) ∧
      (functionName f ∈ gradientFunctions →
        inside mathFunctions around = false ∧ property ∈ gradientProperties) ∧
      (functionName f ∈ colorFunctions → inside gradientFunctions around = true) := by
  have hurl : urlAllowed property (inside mathFunctions around) (urlTarget? content) = true ↔
      inside mathFunctions around = false ∧ property ∈ urlProperties ∧ ∃ target,
        (Token.block (.function f) content).HasTarget target ∧ IsSafeAddress target := by
    simp only [urlAllowed_iff, urlTarget?_eq_some_iff (f := f)]
  rw [hurl]
  constructor
  · intro h
    refine ⟨h.function f content rfl, fun hname => h.address ?_, h.gradient f content rfl,
      h.color f content rfl⟩
    rw [Token.isAddress, isUrl_function, hname]
    rfl
  · rintro ⟨hknown, haddress, hgradient, hcolor⟩
    refine ⟨by simp, by simp, by simp, ?_, fun hurl => haddress ?_, ?_, ?_, by simp⟩
    · rintro f content ⟨⟩
      exact hknown
    · rwa [Token.isAddress, isUrl_function, decide_eq_true_eq] at hurl
    · rintro f content ⟨⟩
      exact hgradient
    · rintro f content ⟨⟩
      exact hcolor

/-! ### What the check asks -/

/-- What the check asks of a function: that it is admitted, and of its content the same, inside one
more block. Which flags the content is given depends on the kind of the function. -/
theorem safeToken_function_iff {f : String} :
    safeToken property (inside mathFunctions around) (inside gradientFunctions around)
        (.block (.function f) content) = true ↔
      (Token.block (.function f) content).IsAdmitted property around ∧
        ((Opening.function f).isUrl = false →
          safeTokens property (inside mathFunctions (around ++ [.function f]))
            (inside gradientFunctions (around ++ [.function f])) content = true) := by
  rw [isAdmitted_function, safeToken, inside_concat, inside_concat, isUrl_function]
  simp only [Opening.calls, knownFunctions, List.mem_cons, List.mem_append, Bool.and_eq_true,
    List.contains_iff_mem]
  cases isOfKind f with
  | url h hmath hgradient hcolor =>
    rw [h] at hgradient hcolor
    simp [h, hgradient, hcolor]
  | math hurl h hgradient hcolor => simp [hurl, h, hgradient, hcolor]
  | gradient hurl hmath h hcolor =>
    -- The flag that a gradient clears is not set where it is entered.
    cases inside mathFunctions around <;> simp [hurl, h, hmath, hcolor]
  | color hurl hmath hgradient h =>
    cases inside gradientFunctions around <;> simp [hurl, h, hmath, hgradient]
  | unknown hurl hmath hgradient hcolor => simp [hurl, hmath, hgradient, hcolor]

/-- **What the check asks of one token**, with the flags that the blocks around it set. -/
theorem safeToken_iff :
    safeToken property (inside mathFunctions around) (inside gradientFunctions around) t = true ↔
      t.IsAdmitted property around ∧ ∀ o content, t = .block o content → o.isUrl = false →
        safeTokens property (inside mathFunctions (around ++ [o]))
          (inside gradientFunctions (around ++ [o])) content = true := by
  cases t with
  | atom a => simp [safeToken, isAdmitted_atom]
  | block o content =>
    cases o with
    | function f =>
      rw [safeToken_function_iff]
      refine and_congr_right fun _ => ⟨?_, fun h => h _ _ rfl⟩
      rintro h _ _ ⟨⟩
      exact h
    | bracket kind =>
      rw [isAdmitted_bracket, safeToken, Bool.and_eq_true, Bool.and_eq_true, decide_eq_true_eq]
      refine and_congr_right ?_
      rintro ⟨-, hmath⟩
      have hflags : ∀ names, inside names (around ++ [.bracket kind]) = inside names around :=
        fun names => by rw [inside_concat, Opening.calls, Bool.or_false]
      constructor
      · rintro h _ _ ⟨⟩ -
        rwa [hflags, hflags, hmath]
      · intro h
        have hcontent := h _ _ rfl rfl
        rwa [hflags, hflags, hmath] at hcontent

theorem safeTokens_iff_forall {inMath inGradient : Bool} :
    safeTokens property inMath inGradient ts = true ↔
      ∀ t ∈ ts, safeToken property inMath inGradient t = true := by
  induction ts with
  | nil => simp [safeTokens]
  | cons t ts ih => rw [safeTokens, Bool.and_eq_true, ih, List.forall_mem_cons]

/-- What passes holds nothing that is not admitted. -/
theorem isAdmitted_of_safeTokens {within : List Opening} (hstands : t.StandsIn within ts)
    (h : safeTokens property (inside mathFunctions around) (inside gradientFunctions around) ts =
      true) : t.IsAdmitted property (around ++ within) := by
  induction hstands generalizing around with
  | top hmem =>
    rw [List.append_nil]
    exact (safeToken_iff.mp (safeTokens_iff_forall.mp h _ hmem)).1
  | @inner o content _ within hblock hurl _ ih =>
    have hcontent := (safeToken_iff.mp (safeTokens_iff_forall.mp h _ hblock)).2 o content rfl hurl
    have hadmitted := ih hcontent
    rwa [List.append_assoc] at hadmitted

/-- What holds nothing that is not admitted passes. -/
theorem safeTokens_of_isAdmitted (around : List Opening) (ts : List Token)
    (h : ∀ within (t : Token), t.StandsIn within ts → t.IsAdmitted property (around ++ within)) :
    safeTokens property (inside mathFunctions around) (inside gradientFunctions around) ts =
      true := by
  refine safeTokens_iff_forall.mpr fun t hmem => safeToken_iff.mpr ⟨?_, ?_⟩
  · have hadmitted := h [] t (.top hmem)
    rwa [List.append_nil] at hadmitted
  · rintro o content rfl hurl
    have hsize : sizeOf content < sizeOf ts := by
      have hblock := List.sizeOf_lt_of_mem hmem
      rw [Token.block.sizeOf_spec] at hblock
      omega
    refine safeTokens_of_isAdmitted (around ++ [o]) content fun within t hstands => ?_
    rw [List.append_assoc]
    exact h (o :: within) t (.inner hmem hurl hstands)
termination_by sizeOf ts

/-- **What the check asks of a value**: every token is admitted in its place. -/
theorem safeTokens_iff : safeTokens property false false ts = true ↔
    ∀ around (t : Token), t.StandsIn around ts → t.IsAdmitted property around := by
  constructor
  · intro h around t hstands
    have hadmitted : t.IsAdmitted property ([] ++ around) := isAdmitted_of_safeTokens hstands h
    exact hadmitted
  · exact safeTokens_of_isAdmitted [] ts

/-! ### Declarations -/

theorem beforeSemicolon?_eq_some_iff {before : List Token} :
    beforeSemicolon? ts = some before ↔ ts = before ++ [.atom (.literal ";")] := by
  rw [beforeSemicolon?]
  constructor
  · intro h
    split at h
    next rest hrest =>
      cases h
      rw [← List.reverse_reverse ts, hrest, List.reverse_cons]
    next => cases h
  · rintro rfl
    rw [List.reverse_append]
    exact congrArg some (List.reverse_reverse before)

theorem isSafeTerminated_iff {cs : List Char} : isSafeTerminated property cs = .ok true ↔
    ∃ before, tokens (cs ++ [';']) = .ok (before ++ [.atom (.literal ";")]) ∧
      ∀ around (t : Token), t.StandsIn around before → t.IsAdmitted property around := by
  constructor
  · intro h
    obtain ⟨ts, hts, hsafe⟩ := Result.exists_of_bind h
    have hsafe := Except.ok.inj hsafe
    split at hsafe
    next before hbefore =>
      rw [beforeSemicolon?_eq_some_iff.mp hbefore] at hts
      exact ⟨before, hts, safeTokens_iff.mp hsafe⟩
    next => cases hsafe
  · rintro ⟨before, hts, hadmitted⟩
    rw [isSafeTerminated, hts]
    show Except.ok _ = _
    rw [beforeSemicolon?_eq_some_iff.mpr rfl]
    exact congrArg Except.ok (safeTokens_iff.mpr hadmitted)

theorem refusedOutright_eq_false_iff {cs : List Char} : refusedOutright cs = false ↔
    cs ≠ [] ∧ ';' ∉ cs ∧ '\\' ∉ cs ∧ ¬ ['/', '*'] <:+: cs := by
  rw [← Text.occursIn_iff]
  simp [refusedOutright, and_assoc]

theorem isSafeText_iff {cs : List Char} : isSafeText property cs = .ok true ↔
    (stripped cs ≠ [] ∧ ';' ∉ stripped cs ∧ '\\' ∉ stripped cs ∧ ¬ ['/', '*'] <:+: stripped cs) ∧
      ∃ before, tokens (stripped cs ++ [';']) = .ok (before ++ [.atom (.literal ";")]) ∧
        ∀ around (t : Token), t.StandsIn around before → t.IsAdmitted property around := by
  rw [← refusedOutright_eq_false_iff, ← isSafeTerminated_iff, isSafeText]
  cases refusedOutright (stripped cs) <;> simp

/-- **The declarations that are safe.** -/
theorem isSafeDeclaration_iff (property : String) (v : Value) :
    isSafeDeclaration property v = .ok true ↔
      property ∈ safeProperties ∧ ∃ text, v.spelling = .ok text ∧
        let s := stripped text.toList
        (s ≠ [] ∧ ';' ∉ s ∧ '\\' ∉ s ∧ ¬ ['/', '*'] <:+: s) ∧
          ∃ before, tokens (s ++ [';']) = .ok (before ++ [.atom (.literal ";")]) ∧
            ∀ around (t : Token), t.StandsIn around before → t.IsAdmitted property around := by
  rw [isSafeDeclaration]
  split
  next hproperty =>
    rw [List.contains_iff_mem] at hproperty
    refine ⟨fun h => ⟨hproperty, ?_⟩, ?_⟩
    · obtain ⟨text, htext, hsafe⟩ := Result.exists_of_bind h
      exact ⟨text, htext, isSafeText_iff.mp hsafe⟩
    · rintro ⟨-, text, htext, hsafe⟩
      rw [htext]
      exact isSafeText_iff.mpr hsafe
  next hproperty =>
    rw [List.contains_iff_mem] at hproperty
    simp [hproperty]

end ThemeSheet.Css
