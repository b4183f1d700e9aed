import ThemeSheet.Blocks.Registry
import ThemeSheet.Proofs.Preset.Ordered
import ThemeSheet.Proofs.Theme.StyleRules

/-!
# The fixed rules of the root

Around the rule of the root stand fixed rules: a reset before it, and after it the alignments and,
where there is a block gap, the flow of blocks. Which part of the styles is the root is told by its
selector. A block can be registered with the same selector, and then the fixed rules stand around
its rules too, so that its reset comes after what the root declares.

That the fixed rules can be counted in the section as it is written rests on how they end: no rule
that is made of declarations ends like them.

## Main definitions

* `Theme.rootRules`, the fixed rules around the rule of the root;
* `Registry.hasAsRoot`, of blocks that are registered with the selector of the root.

## Main results

* `filter_stylePaths`: the parts that are written under the selector of the root;
* `Theme.fixedOf_stylePieces`: the fixed rules of the section, part by part;
* `Theme.fixed_rules`: where they stand, and how often.
-/

namespace ThemeSheet

variable {table : BlockTable} {place : Path} {pieces : List Piece} {tree : Value}

/-! ### Parts under the selector of the root -/

/-- What every part ends in, the parts together end in. -/
theorem suffix_joinWith {sep suffix : List Char} {parts : List (List Char)} (hne : parts ≠ [])
    (h : ∀ part ∈ parts, suffix <:+ part) : suffix <:+ Text.joinWith sep parts := by
  induction parts with
  | nil => exact absurd rfl hne
  | cons part parts ih =>
    by_cases hnil : parts = []
    · subst hnil
      exact h part List.mem_cons_self
    · rw [Text.joinWith_cons_of_ne_nil hnil]
      exact (ih hnil fun p hp => h p (List.mem_cons_of_mem part hp)).trans (List.suffix_append _ _)

/-- The selector of an element inside a block has a blank before the element. -/
theorem elementSelector_ne_rootSelector (selector element : String) :
    elementSelector selector element ≠ rootSelector := by
  have hsuffix : ' ' :: element.toList <:+ (elementSelector selector element).toList := by
    rw [elementSelector, Selector.append, String.toList_ofList, Selector.appendTo]
    refine suffix_joinWith (by simp [Selector.branchesOf, Text.splitOn_ne_nil]) fun part hpart => ?_
    obtain ⟨branch, -, rfl⟩ := List.mem_map.mp hpart
    rw [String.toList_append]
    exact List.suffix_append _ _
  intro heq
  rw [heq] at hsuffix
  have hblank : ' ' ∈ rootSelector.toList := hsuffix.mem List.mem_cons_self
  exact absurd hblank (by decide)

namespace Registry

/-- Whether the block of a name is registered with the selector of the root. -/
def hasAsRoot (registry : Registry) (name : String) : Bool :=
  (registry.find? name).any fun block => block.selector = rootSelector

/-- The table of a registry has under a name what the block of that name compiles to. -/
theorem find?_table (registry : Registry) (elements : List (String × String)) (name : String) :
    (registry.table elements).find? name =
      (registry.find? name).map (BlockMetadata.ofBlockType elements) := by
  rw [table, BlockTable.ofBlocks, BlockTable.find?, find?]
  induction registry.blocks with
  | nil => rfl
  | cons block blocks ih =>
    rw [List.map_cons, List.lookup_cons, List.find?_cons]
    by_cases hname : block.name = name
    · simp [hname]
    · have hne : (name == block.name) = false := by simpa using Ne.symm hname
      simpa [hne, hname] using ih

end Registry

/-- Whether the styles at a path are written under the selector of the root. -/
def underRoot (table : BlockTable) (place : Path) : Bool :=
  styleSelector? table place = some rootSelector

/-- A block is written under the selector of the root if it is registered with it. -/
theorem underRoot_block (registry : Registry) (elements : List (String × String)) (name : String) :
    underRoot (registry.table elements) ["styles", "blocks", name] = registry.hasAsRoot name := by
  rw [underRoot, styleSelector?, registry.find?_table, Registry.hasAsRoot]
  cases registry.find? name <;> simp [BlockMetadata.ofBlockType]

/-- No element of the root is written under the selector of the root. -/
theorem underRoot_element (table : BlockTable) (element : String) :
    underRoot table ["styles", "elements", element] = false := by
  have hlisted : ∀ e ∈ elements, e.2 ≠ rootSelector := by decide
  rw [underRoot, styleSelector?, decide_eq_false_iff_not]
  exact fun h => hlisted _ (Named.mem_of_lookup h) rfl

/-- No element of a block is written under the selector of the root. -/
theorem underRoot_blockElement (registry : Registry) (elements : List (String × String))
    (name element : String) : underRoot (registry.table elements)
      ["styles", "blocks", name, "elements", element] = false := by
  rw [underRoot, styleSelector?, registry.find?_table, decide_eq_false_iff_not]
  intro h
  obtain ⟨metadata, hmetadata, h⟩ := Option.bind_eq_some_iff.mp h
  obtain ⟨block, -, rfl⟩ := Option.map_eq_some_iff.mp hmetadata
  obtain ⟨e, -, heq⟩ := List.mem_map.mp (Named.mem_of_lookup h)
  exact elementSelector_ne_rootSelector block.selector e.2 (Prod.mk.inj heq).2

/-- No elements at a place are among what is written under the selector of the root. -/
theorem filter_elementPaths (place : Path)
    (h : ∀ element, underRoot table (place ++ ["elements", element]) = false) :
    (elementPaths tree place).filter (underRoot table) = [] := by
  refine List.filter_eq_nil_iff.mpr fun p hp => ?_
  obtain ⟨element, -, rfl⟩ := mem_elementPaths_iff.mp hp
  simp [h element]

/-- **The parts under the selector of the root** are the root and the blocks that are registered
with it. -/
theorem filter_stylePaths (registry : Registry) (elements : List (String × String))
    (hstyles : (tree.at? ["styles"]).any Value.isMap = true) :
    (stylePaths tree).filter (underRoot (registry.table elements)) =
      ["styles"] :: ((tree.namesAt ["styles", "blocks"]).filter registry.hasAsRoot).map fun name =>
        ["styles", "blocks", name] := by
  have hroot : underRoot (registry.table elements) ["styles"] = true := decide_eq_true rfl
  have hblock : ∀ name, (blockPaths tree name).filter (underRoot (registry.table elements)) =
      if registry.hasAsRoot name then [["styles", "blocks", name]] else [] := by
    intro name
    rw [blockPaths, List.filter_cons, underRoot_block,
      filter_elementPaths ["styles", "blocks", name] fun element =>
        underRoot_blockElement registry elements name element]
  rw [stylePaths, if_pos hstyles, List.filter_cons_of_pos hroot, List.filter_append,
    filter_elementPaths ["styles"] fun element => underRoot_element _ element,
    List.nil_append, List.filter_flatMap]
  congr 1
  -- Of the paths of a block at most its own is left, so the blocks are filtered by their names.
  simp only [hblock]
  induction tree.namesAt ["styles", "blocks"] with
  | nil => rfl
  | cons name names ih =>
    rw [List.flatMap_cons, ih, List.filter_cons]
    split <;> rfl

/-! ### Fixed texts -/

/-- Every fixed rule ends in a blank and a bracket. -/
theorem exists_eq_append_of_fixed {text : String}
    (h : text ∈ [rootReset, alignments, blockGapFlow]) : ∃ front, text = front ++ " \x7d" := by
  simp only [List.mem_cons, List.not_mem_nil, or_false] at h
  rcases h with rfl | rfl | rfl
  · exact ⟨"body \x7b margin: 0;", by decide +kernel⟩
  · have hlast : "\x7b justify-content: center; margin-left: auto; margin-right: auto; \x7d" =
        "\x7b justify-content: center; margin-left: auto; margin-right: auto;" ++ " \x7d" := by
      decide +kernel
    exact ⟨_, (congrArg _ hlast).trans String.append_assoc.symm⟩
  · have hlast : ".wp-site-blocks > * + * \x7b margin-top: var( --wp--style--block-gap ); \x7d" =
        ".wp-site-blocks > * + * \x7b margin-top: var( --wp--style--block-gap );" ++ " \x7d" := by
      decide +kernel
    exact ⟨_, (congrArg _ hlast).trans String.append_assoc.symm⟩

/-- The fixed texts among some pieces. -/
def fixedOf (pieces : List Piece) : List String :=
  pieces.filterMap fun piece => match piece with
    | .rule _ => none
    | .fixed text => some text

/-- A rule with declarations ends in a semicolon and a bracket. -/
theorem Rule.suffix_text {r : Rule} (h : r.declarations ≠ []) :
    [';', '\x7d'] <:+ r.text.toList := by
  obtain ⟨ds, d, hds⟩ := (List.eq_nil_or_concat r.declarations).resolve_left h
  have hsome : r.declarations.isEmpty = false := by simpa using h
  refine ⟨(r.selector ++ "\x7b" ++ String.join (ds.map Declaration.text) ++
    (d.name ++ ": " ++ d.value)).toList, ?_⟩
  rw [text, hsome, hds, List.concat_eq_append, List.map_append, String.join_append]
  simp [Declaration.text, String.toList_append]

/-- No rule that is made of declarations ends in a blank and a bracket. -/
theorem Rule.text_ne (r : Rule) (front : String) : r.text ≠ front ++ " \x7d" := by
  intro heq
  have hfixed : [' ', '\x7d'] <:+ r.text.toList := by
    rw [heq, String.toList_append]
    exact List.suffix_append _ _
  by_cases h : r.declarations = []
  · have hempty : r.text = "" := by rw [text, h]; rfl
    rw [hempty] at hfixed
    exact absurd (List.suffix_nil.mp hfixed) (List.cons_ne_nil _ _)
  · -- Two ends of one text, each of two characters, would be the same.
    rcases List.suffix_or_suffix_of_suffix hfixed (suffix_text h) with hsuffix | hsuffix
    · exact absurd hsuffix (by decide)
    · exact absurd hsuffix (by decide)

/-- A fixed rule is written as often as it stands among the fixed texts. -/
theorem count_texts (pieces : List Piece) {text : String}
    (htext : text ∈ [rootReset, alignments, blockGapFlow]) :
    (pieces.map Piece.text).count text = (fixedOf pieces).count text := by
  obtain ⟨front, hfront⟩ := exists_eq_append_of_fixed htext
  induction pieces with
  | nil => rfl
  | cons piece pieces ih =>
    rw [List.map_cons, List.count_cons, ih]
    cases piece with
    | rule r =>
      have hne : ((Piece.rule r).text == text) = false :=
        beq_eq_false_iff_ne.mpr (hfront ▸ r.text_ne front)
      rw [hne]
      rfl
    | fixed s => exact List.count_cons.symm

theorem fixedOf_fixed_cons (text : String) (pieces : List Piece) :
    fixedOf (.fixed text :: pieces) = text :: fixedOf pieces := rfl

theorem fixedOf_append (pieces more : List Piece) :
    fixedOf (pieces ++ more) = fixedOf pieces ++ fixedOf more :=
  List.filterMap_append

namespace Theme

variable {theme : Theme}

/-- The fixed rules around the rule of the root. -/
def rootRules (theme : Theme) : List String :=
  rootReset :: alignments :: if theme.hasBlockGap then [blockGapFlow] else []

/-- The fixed rules differ, so each stands once around the rule of the root. -/
theorem count_rootRules (theme : Theme) :
    theme.rootRules.count rootReset = 1 ∧ theme.rootRules.count alignments = 1 ∧
      theme.rootRules.count blockGapFlow = if theme.hasBlockGap then 1 else 0 := by
  rw [rootRules]
  cases theme.hasBlockGap <;> decide +kernel

/-- No fixed text is among the rules of declarations. -/
theorem fixedOf_scopeRules (selector : String) (duotone : Option String) (ds : List Declaration) :
    fixedOf (scopeRules selector duotone ds) = [] := by
  unfold scopeRules
  cases duotone with
  | none => rfl
  | some target =>
    dsimp only
    split <;> rfl

/-- The fixed rules of a part are those of the root, or none. -/
theorem fixedOf_scopeStyles {group : List Piece}
    (h : theme.scopeStyles (scopeAt table place) = .ok group) :
    fixedOf group = if underRoot table place then theme.rootRules else [] := by
  rw [underRoot]
  rcases scopeStyles_cases h with ⟨hselector, rfl⟩ | ⟨selector, ds, hselector, -, rfl⟩
  · rw [hselector]
    rfl
  · have hafter : fixedOf (.fixed alignments ::
        if theme.hasBlockGap then [.fixed blockGapFlow] else []) =
          alignments :: if theme.hasBlockGap then [blockGapFlow] else [] := by
      cases theme.hasBlockGap <;> rfl
    rw [hselector]
    by_cases hroot : selector = rootSelector
    · rw [if_pos hroot, List.cons_append, fixedOf_fixed_cons, fixedOf_append, fixedOf_scopeRules,
        hafter, hroot]
      rfl
    · rw [if_neg hroot, fixedOf_scopeRules]
      simp [hroot]

/-- **The fixed rules of the styles, part by part.** -/
theorem fixedOf_stylePieces (htree : theme.tree.IsTree)
    (h : theme.stylePieces table = .ok pieces) : fixedOf pieces =
      ((stylePaths theme.tree).filter (underRoot table)).flatMap fun _ => theme.rootRules := by
  rw [fixedOf, filterMap_stylePieces htree h fun place group => fixedOf_scopeStyles]
  induction stylePaths theme.tree with
  | nil => rfl
  | cons place places ih =>
    rw [List.flatMap_cons, ih, List.filter_cons]
    cases underRoot table place <;> rfl

/-- How often a fixed rule stands in the section of styles. -/
theorem count_stylePieces (htree : theme.tree.IsTree) (h : theme.stylePieces table = .ok pieces)
    {text : String} (htext : text ∈ [rootReset, alignments, blockGapFlow]) :
    (pieces.map Piece.text).count text =
      (stylePaths theme.tree).countP (underRoot table) * theme.rootRules.count text := by
  rw [count_texts pieces htext, fixedOf_stylePieces htree h, List.count_flatMap,
    List.countP_eq_length_filter]
  exact (congrArg List.sum List.map_const).trans List.sum_replicate_nat

/-- The section of styles begins with the rule of the root between its fixed rules. -/
theorem exists_stylePieces_eq (htree : theme.tree.IsTree)
    (hstyles : (theme.tree.at? ["styles"]).any Value.isMap = true)
    (h : theme.stylePieces table = .ok pieces) : ∃ ds rest,
      styleDeclarations (theme.tree.getD ["styles"] .emptyMap) theme.settings = .ok ds ∧
      pieces = .fixed rootReset :: .rule ⟨rootSelector, ds.filter fun d => d.name ≠ "filter"⟩ ::
        .fixed alignments :: (if theme.hasBlockGap then [.fixed blockGapFlow] else []) ++ rest := by
  rw [stylePieces, styleScopes_eq_map htree, stylePaths, if_pos hstyles, List.map_cons,
    List.mapM_cons] at h
  obtain ⟨groups, hgroups, h⟩ := Result.exists_of_bind h
  cases h
  obtain ⟨group, hgroup, hgroups⟩ := Result.exists_of_bind hgroups
  obtain ⟨others, -, hgroups⟩ := Result.exists_of_bind hgroups
  cases hgroups
  rcases scopeStyles_cases hgroup with ⟨hselector, -⟩ | ⟨selector, ds, hselector, hds, rfl⟩
  · cases hselector
  · cases hselector
    refine ⟨ds, others.flatten, hds, ?_⟩
    rw [if_pos rfl, ← filter_not_isFilter]
    rfl

/-- **Where the fixed rules of the root stand, and how often.** For every theme with styles that has
been made and every registry, of the section of styles as it is written:

* it begins with the reset, the rule of the root, the alignments and, if there is a block gap, the
  flow of blocks;
* the reset and the alignments stand in it once for the root, and once more for every styled block
  that is registered with the selector of the root, and so does the flow if there is a block gap. -/
theorem fixed_rules (hmade : Made theme) (hstyles : (theme.tree.at? ["styles"]).isSome = true)
    (registry : Registry) (h : theme.stylePieces (registry.table elements) = .ok pieces) :
    let texts := pieces.map Piece.text
    let asRoot := (theme.tree.namesAt ["styles", "blocks"]).countP registry.hasAsRoot
    (∃ declared rest, IsDeclared theme.tree ["styles"] declared ∧
      texts = rootReset :: Rule.text ⟨rootSelector, declared.filter fun d => d.name ≠ "filter"⟩ ::
        alignments :: (if theme.hasBlockGap then [blockGapFlow] else []) ++ rest) ∧
    texts.count rootReset = 1 + asRoot ∧ texts.count alignments = 1 + asRoot ∧
    texts.count blockGapFlow = if theme.hasBlockGap then 1 + asRoot else 0 := by
  intro texts asRoot
  have hmap := any_isMap_of_all hmade.isMap_styles hstyles
  obtain ⟨ds, rest, hds, hpieces⟩ := exists_stylePieces_eq hmade.isTree hmap h
  have hparts : (stylePaths theme.tree).countP (underRoot (registry.table elements)) =
      1 + asRoot := by
    rw [List.countP_eq_length_filter, filter_stylePaths registry elements hmap, List.length_cons,
      List.length_map, ← List.countP_eq_length_filter, Nat.add_comm]
  have hcount : ∀ text ∈ [rootReset, alignments, blockGapFlow],
      texts.count text = (1 + asRoot) * theme.rootRules.count text := fun text htext => by
    rw [← hparts]
    exact count_stylePieces hmade.isTree h htext
  obtain ⟨hreset, halignments, hflow⟩ := theme.count_rootRules
  refine ⟨⟨ds, rest.map Piece.text, isDeclared_of_styleDeclarations (List.cons_ne_nil _ _) hds, ?_⟩,
    ?_, ?_, ?_⟩
  · have htexts : texts = pieces.map Piece.text := rfl
    rw [htexts, hpieces]
    cases theme.hasBlockGap <;> rfl
  · rw [hcount rootReset (by simp), hreset, Nat.mul_one]
  · rw [hcount alignments (by simp), halignments, Nat.mul_one]
  · rw [hcount blockGapFlow (by simp), hflow]
    cases theme.hasBlockGap
    · exact Nat.mul_zero _
    · exact Nat.mul_one _

/-- A theme with a block gap and two styled blocks, the first of which is registered with the
selector of the root. All fixed rules stand twice in its section. -/
theorem fixed_rules_two_blocks :
    let registry := (Registry.empty.register
      ⟨"core/post-content", [(.text "__experimentalSelector", .text "body")]⟩).register
      ⟨"core/quote", []⟩
    let red := Value.map [(.text "color", .map [(.text "text", .text "red")])]
    let theme := construct registry.names "theme" (.map [
      (.text "settings", .map [(.text "spacing", .map [(.text "blockGap", .bool true)])]),
      (.text "styles", .map [
        (.text "spacing", .map [(.text "blockGap", .text "2em")]),
        (.text "blocks", .map [(.text "core/post-content", red), (.text "core/quote", red)])])])
    Made theme ∧ (theme.tree.at? ["styles"]).isSome = true ∧ ∃ pieces declared rest,
      theme.stylePieces (registry.table elements) = .ok pieces ∧
      IsDeclared theme.tree ["styles"] declared ∧
      pieces.map Piece.text = rootReset ::
        Rule.text ⟨rootSelector, declared.filter fun d => d.name ≠ "filter"⟩ ::
        alignments :: (if theme.hasBlockGap then [blockGapFlow] else []) ++ rest ∧
      (pieces.map Piece.text).count rootReset = 2 ∧ (pieces.map Piece.text).count alignments = 2 ∧
      (pieces.map Piece.text).count blockGapFlow = 2 := by
  intro registry red theme
  have hmade : Made theme := .construct _ _ (by decide)
  have hstyles : (theme.tree.at? ["styles"]).isSome = true := by decide +kernel
  have hgap : theme.hasBlockGap = true := by decide +kernel
  have hroots : (theme.tree.namesAt ["styles", "blocks"]).countP registry.hasAsRoot = 1 := by
    decide +kernel
  have hrules : (theme.stylePieces (registry.table elements)).map rulesOf = .ok [
      ⟨"body", [⟨"--wp--style--block-gap", "2em"⟩]⟩, ⟨"body", [⟨"color", "red"⟩]⟩,
      ⟨".wp-block-quote", [⟨"color", "red"⟩]⟩] := by decide +kernel
  obtain ⟨pieces, hpieces, -⟩ := Result.exists_of_map hrules
  obtain ⟨⟨declared, rest, hdeclared, htexts⟩, hreset, halignments, hflow⟩ :=
    fixed_rules hmade hstyles registry hpieces
  rw [hroots] at hreset halignments hflow
  rw [hgap] at hflow
  exact ⟨hmade, hstyles, pieces, declared, rest, hpieces, hdeclared, htexts, hreset, halignments,
    hflow⟩

/-- The fixed rules are not written for the root alone: the reset stands again before the rule of a
block that is registered with the selector of the root, and after the margin that the root has. -/
theorem fixed_rules_repeated :
    let registry := Registry.empty.register
      ⟨"core/post-content", [(.text "__experimentalSelector", .text "body")]⟩
    let red := Value.map [(.text "color", .map [(.text "text", .text "red")])]
    let theme := construct registry.names "theme" (.map [(.text "styles", .map [
      (.text "spacing", .map [(.text "margin", .text "5px")]),
      (.text "blocks", .map [(.text "core/post-content", red)])])])
    Made theme ∧ ∃ pieces, theme.stylePieces (registry.table elements) = .ok pieces ∧
      pieces.map Piece.text = [rootReset, "body\x7bmargin: 5px;\x7d", alignments,
        rootReset, "body\x7bcolor: red;\x7d", alignments] ∧
      (pieces.map Piece.text).count rootReset ≠ 1 ∧
      (pieces.map Piece.text).count alignments ≠ 1 := by
  intro registry red theme
  have htexts : (theme.stylePieces (registry.table elements)).map (·.map Piece.text) =
      .ok [rootReset, "body\x7bmargin: 5px;\x7d", alignments,
        rootReset, "body\x7bcolor: red;\x7d", alignments] := by decide +kernel
  obtain ⟨pieces, hpieces, heq⟩ := Result.exists_of_map htexts
  refine ⟨.construct _ _ (by decide), pieces, hpieces, heq, ?_⟩
  rw [heq]
  decide +kernel

end Theme

end ThemeSheet
