import NifBindings.Proofs.Hierarchy.Forest
import NifBindings.Proofs.Source.Dispatch

/-!
# Lineages of blocks

The source of a dispatcher lists its blocks four times, and the last listing holds a name against a
pattern of texts. The listings are read here as the compiler reads them, for names that stand for
themselves between quotes. All four are those of the objects that are not abstract, and a pattern
holds exactly what its object inherits from.
-/

namespace NifBindings

/-- Whether a text stands for itself between quotes, whatever characters it has otherwise. -/
def isUnescaped (text : String) : Bool :=
  text.toList.all fun c => c != '\"' && c != '\\'

/-- A text that stands for itself has no quote and no backslash. -/
theorem isUnescaped_iff {text : String} :
    isUnescaped text = true ↔ '\"' ∉ text.toList ∧ '\\' ∉ text.toList := by
  simp only [isUnescaped, List.all_eq_true, Bool.and_eq_true, bne_iff_ne, ne_eq, forall_and]
  exact and_congr (by grind) (by grind)

section Pattern

/-- The text that stands between quotes, unless a backslash makes it mean something else. -/
def literal? (text : List Char) : Option String :=
  if '\\' ∈ text then none else some (String.ofList text)

/-- The texts of a pattern whose first quote has been read, cut at its other quotes. A bar stands
between two texts. -/
def alternativesOf : List (List Char) → Option (List String)
  | [text, []] => (literal? text).map fun first => [first]
  | text :: bar :: rest =>
    if bar = [' ', '|', ' '] then do
      let first ← literal? text
      let others ← alternativesOf rest
      some (first :: others)
    else none
  | _ => none

/-- The texts of a pattern that consists of texts in quotes. -/
def alternatives? (pattern : String) : Option (List String) :=
  match pattern.toList.splitOn '\"' with
  | [] :: cuts => alternativesOf cuts
  | _ => none

/-- A text that stands for itself can be read between quotes. -/
theorem literal?_toList {text : String} (h : isUnescaped text = true) :
    literal? text.toList = some text := by
  rw [literal?, if_neg (isUnescaped_iff.mp h).2, String.ofList_toList]

/-- The characters of a text in quotes. -/
theorem toList_quoted (text : String) : (quoted text).toList = '\"' :: (text.toList ++ ['\"']) := by
  simp [quoted]

/-- Texts in quotes with bars between them begin with a quote, and behind it they are cut into those
texts. -/
theorem exists_cuts {texts : List String} (hne : texts ≠ [])
    (htexts : ∀ text ∈ texts, isUnescaped text = true) :
    ∃ body, [' ', '|', ' '].intercalate (texts.map fun text => (quoted text).toList) =
        '\"' :: body ∧
      alternativesOf (body.splitOn '\"') = some texts := by
  induction texts with
  | nil => exact absurd rfl hne
  | cons first rest ih =>
    have hfirst := htexts first List.mem_cons_self
    have hquote := (isUnescaped_iff.mp hfirst).1
    cases rest with
    | nil =>
      refine ⟨first.toList ++ ['\"'], by simp [toList_quoted], ?_⟩
      rw [List.splitOn_append_cons_self_of_not_mem hquote, List.splitOn_nil, alternativesOf,
        literal?_toList hfirst]
      rfl
    | cons second rest =>
      obtain ⟨body, hbody, hcuts⟩ := ih (List.cons_ne_nil _ _)
        fun text htext => htexts text (List.mem_cons_of_mem first htext)
      refine ⟨first.toList ++ '\"' :: ([' ', '|', ' '] ++ '\"' :: body), ?_, ?_⟩
      · rw [List.map_cons] at hbody
        rw [List.map_cons, List.map_cons, List.intercalate_cons_cons, hbody, toList_quoted]
        simp
      · rw [List.splitOn_append_cons_self_of_not_mem hquote,
          List.splitOn_append_cons_self_of_not_mem (by decide), alternativesOf, if_pos rfl, hcuts,
          literal?_toList hfirst]
        · rfl
        · simp

/-- A pattern of texts that stand for themselves holds those texts. -/
theorem alternatives?_intercalate {texts : List String} (hne : texts ≠ [])
    (htexts : ∀ text ∈ texts, isUnescaped text = true) :
    alternatives? (" | ".intercalate (texts.map quoted)) = some texts := by
  obtain ⟨body, hbody, hcuts⟩ := exists_cuts hne htexts
  have hpattern : (" | ".intercalate (texts.map quoted)).toList = [] ++ '\"' :: body := by
    rw [String.toList_intercalate, List.map_map]
    exact hbody
  rw [alternatives?, hpattern, List.splitOn_append_cons_self_of_not_mem (by simp)]
  exact hcuts

/-- A pattern that can be read begins with a quote. -/
theorem exists_of_alternatives? {pattern : String} {texts : List String}
    (h : alternatives? pattern = some texts) : ∃ body, pattern.toList = '\"' :: body := by
  unfold alternatives? at h
  split at h
  next cuts hcuts =>
    have hjoined : ['\"'].intercalate (pattern.toList.splitOn '\"') = pattern.toList :=
      List.intercalate_splitOn '\"'
    rw [hcuts] at hjoined
    cases cuts with
    | nil => cases h
    | cons cut cuts =>
      rw [List.intercalate_cons_cons] at hjoined
      exact ⟨_, hjoined.symm⟩
  next => cases h

end Pattern

/-- The lines behind the first one that reads `marker`. -/
def linesBehind (marker : String) : List String → List String
  | [] => []
  | line :: rest => if line = marker then rest else linesBehind marker rest

/-- The lines up to the first one that reads `marker`. -/
def linesUpTo (marker : String) : List String → List String
  | [] => []
  | line :: rest => if line = marker then [] else line :: linesUpTo marker rest

namespace Arm

/-- Whether a line declares a variant that holds the structure of its own name. -/
def Declares (line name : String) : Prop :=
  line = "    " ++ name ++ "(" ++ name ++ "),"

/-- Whether a line is an arm that reads a variant for a text. -/
def Reads (line : String) (arm : Arm) : Prop :=
  isUnescaped arm.text = true ∧ isUnescaped arm.variant = true ∧
    line = "            b" ++ quoted arm.text ++ " => " ++ arm.variant ++
      "::read_options(reader, endian, (version,)).map(Self::" ++ arm.variant ++ "),"

/-- Whether a line is an arm that names a variant by a text. -/
def Names (line : String) (arm : Arm) : Prop :=
  isUnescaped arm.text = true ∧ isUnescaped arm.variant = true ∧
    line = "            Self::" ++ arm.variant ++ "(_) => " ++ quoted arm.text ++ ","

/-- Whether a line is an arm that holds an ancestor of a variant against a pattern of texts. -/
def Compares (line : String) (arm : String × List String) : Prop :=
  isUnescaped arm.1 = true ∧ ∃ pattern, alternatives? pattern = some arm.2 ∧
    line = "            Self::" ++ arm.1 ++ "(_) => matches!(ancestor, " ++ pattern ++ "),"

end Arm

namespace Dispatcher

/-- The lines of the variants in the source of a dispatcher. -/
def variantBlock (root : String) (source : List String) : List String :=
  linesUpTo "\x7d" (linesBehind ("pub enum " ++ root ++ " \x7b") source)

/-- The arms of the reader in the source of a dispatcher. -/
def readerBlock (source : List String) : List String :=
  linesUpTo "            _ => Err(Error::Custom \x7b" (linesBehind "        match name \x7b" source)

/-- The signature of the function that names a variant. -/
def nameSignature : String :=
  "    pub fn type_name(&self) -> &'static str \x7b"

/-- The signature of the function that holds an ancestor against the lineage of a variant. -/
def lineageSignature : String :=
  "    pub fn inherits_from(&self, ancestor: &str) -> bool \x7b"

/-- The arms of a function over the variants in the source of a dispatcher. -/
def functionBlock (signature : String) (source : List String) : List String :=
  linesUpTo "        \x7d"
    (linesBehind "        match self \x7b" (linesBehind signature source))

section Lines

variable {variant : BlockVariant}

/-- The declaration of a variant declares its name. -/
theorem declares_variantLine_iff {name : String} :
    Arm.Declares (variantLine variant) name ↔ name = variant.name := by
  constructor
  · intro h
    have htext := congrArg String.toList h
    simp only [variantLine, String.toList_append, List.append_assoc] at htext
    have hnames := List.append_cancel_left htext
    have hlength := congrArg List.length hnames
    simp only [List.length_append] at hlength
    exact String.toList_inj.mp (List.append_inj_left hnames (by omega)).symm
  · rintro rfl
    rfl

/-- The reader's line for a variant reads the variant for its name. -/
theorem reads_readerLine_iff (hname : isUnescaped variant.name = true) {arm : Arm} :
    Arm.Reads (readerLine variant) arm ↔ arm = ⟨variant.name, variant.name⟩ := by
  constructor
  · rintro ⟨htext, hvariant, hline⟩
    exact eq_of_readerLine (isUnescaped_iff.mp htext).1 (isUnescaped_iff.mp hvariant).1 hline
  · rintro rfl
    exact ⟨hname, hname, rfl⟩

/-- The line that names a variant names it by its name. -/
theorem names_nameLine_iff (hname : isUnescaped variant.name = true) {arm : Arm} :
    Arm.Names (nameLine variant) arm ↔ arm = ⟨variant.name, variant.name⟩ := by
  constructor
  · rintro ⟨htext, hvariant, hline⟩
    exact eq_of_nameLine (isUnescaped_iff.mp htext).1 (isUnescaped_iff.mp hvariant).1 hline
  · rintro rfl
    exact ⟨hname, hname, rfl⟩

/-- The line with the lineage of a variant holds its ancestors against this lineage. -/
theorem compares_lineageLine_iff (hname : isUnescaped variant.name = true)
    (hne : variant.lineage ≠ []) (hlineage : ∀ name ∈ variant.lineage, isUnescaped name = true)
    {arm : String × List String} :
    Arm.Compares (lineageLine variant) arm ↔ arm = (variant.name, variant.lineage) := by
  have hpattern := alternatives?_intercalate hne hlineage
  constructor
  · rintro ⟨hvariant, pattern, htexts, hline⟩
    have hchars := congrArg String.toList hline
    obtain ⟨body, hbody⟩ := exists_of_alternatives? hpattern
    obtain ⟨other, hother⟩ := exists_of_alternatives? htexts
    unfold lineageLine at hchars
    simp only [String.toList_append, List.append_assoc] at hchars
    rw [hbody, hother, ← List.append_assoc variant.name.toList,
      ← List.append_assoc arm.1.toList] at hchars
    -- Neither name holds a quote, so that both patterns begin at the first one.
    have hfront : '\"' ∉ variant.name.toList ++ "(_) => matches!(ancestor, ".toList := by
      rw [List.mem_append, not_or]
      exact ⟨(isUnescaped_iff.mp hname).1, by decide⟩
    have hfront' : '\"' ∉ arm.1.toList ++ "(_) => matches!(ancestor, ".toList := by
      rw [List.mem_append, not_or]
      exact ⟨(isUnescaped_iff.mp hvariant).1, by decide⟩
    rcases append_cons_cases (List.append_cancel_left hchars) with
      ⟨hnames, -, hbodies⟩ | ⟨more, hlonger, -⟩ | ⟨more, hlonger, -⟩
    · have hbodies : body = other := List.append_cancel_right hbodies
      have hpatterns : " | ".intercalate (variant.lineage.map quoted) = pattern := by
        rw [← String.toList_inj, hbody, hother, hbodies]
      rw [← hpatterns, hpattern, Option.some.injEq] at htexts
      exact Prod.ext (String.toList_inj.mp (List.append_cancel_right hnames)).symm htexts.symm
    · exact absurd (hlonger ▸ by simp) hfront'
    · exact absurd (hlonger ▸ by simp) hfront
  · rintro rfl
    exact ⟨hname, _, hpattern, rfl⟩

end Lines

section Blocks

/-- Whether a line ends in a comma, as the lines of the four listings do. -/
def endsInComma (line : String) : Bool :=
  line.toList.getLast? == some ','

/-- A text behind another one ends as before. -/
theorem endsInComma_append {front back : String} (h : endsInComma back = true) :
    endsInComma (front ++ back) = true := by
  rw [endsInComma, beq_iff_eq] at h ⊢
  rw [String.toList_append, List.getLast?_append, h]
  rfl

/-- The declaration of a variant ends in a comma. -/
theorem endsInComma_variantLine (variant : BlockVariant) :
    endsInComma (variantLine variant) = true :=
  endsInComma_append (by decide : endsInComma "),")

/-- The arm that reads a variant ends in a comma. -/
theorem endsInComma_readerLine (variant : BlockVariant) :
    endsInComma (readerLine variant) = true :=
  endsInComma_append (by decide : endsInComma "),")

/-- The arm that names a variant ends in a comma. -/
theorem endsInComma_nameLine (variant : BlockVariant) : endsInComma (nameLine variant) = true :=
  endsInComma_append (by decide : endsInComma ",")

/-- The arm with the lineage of a variant ends in a comma. -/
theorem endsInComma_lineageLine (variant : BlockVariant) :
    endsInComma (lineageLine variant) = true :=
  endsInComma_append (by decide : endsInComma "),")

variable {line : BlockVariant → String} {marker : String}

/-- Lines that end in a comma are passed over in the search for one that does not. -/
theorem linesBehind_listing (hline : ∀ variant, endsInComma (line variant) = true)
    (hmarker : endsInComma marker = false) (variants : List BlockVariant) (rest : List String) :
    linesBehind marker (variants.map line ++ rest) = linesBehind marker rest := by
  induction variants with
  | nil => rfl
  | cons variant variants ih =>
    have hne : line variant ≠ marker := by
      rintro rfl
      rw [hline variant] at hmarker
      cases hmarker
    rw [List.map_cons, List.cons_append, linesBehind, if_neg hne, ih]

/-- Lines that end in a comma are what stands in front of one that does not. -/
theorem linesUpTo_listing (hline : ∀ variant, endsInComma (line variant) = true)
    (hmarker : endsInComma marker = false) (variants : List BlockVariant) (rest : List String) :
    linesUpTo marker (variants.map line ++ marker :: rest) = variants.map line := by
  induction variants with
  | nil => simp [linesUpTo]
  | cons variant variants ih =>
    have hne : line variant ≠ marker := by
      rintro rfl
      rw [hline variant] at hmarker
      cases hmarker
    rw [List.map_cons, List.cons_append, linesUpTo, if_neg hne, ih]

/-- Texts with different first characters are different. -/
theorem ne_of_head {a b : String} (h : a.toList.head? ≠ b.toList.head?) : a ≠ b :=
  fun hsame => h (hsame ▸ rfl)

variable (dispatcher : Dispatcher)

/-- The block of the variants declares each variant. -/
theorem variantBlock_lines :
    variantBlock dispatcher.root dispatcher.lines = dispatcher.variants.map variantLine := by
  have hdoc : "/// Any block that can appear in a file's block list." ≠
      "pub enum " ++ dispatcher.root ++ " \x7b" := ne_of_head (by simp)
  have hderive : "#[derive(Clone, Debug, PartialEq)]" ≠
      "pub enum " ++ dispatcher.root ++ " \x7b" := ne_of_head (by simp)
  have hvariants := linesUpTo_listing endsInComma_variantLine
    (by decide : endsInComma "\x7d" = false) dispatcher.variants
  simp [variantBlock, lines, linesBehind, hdoc, hderive, hvariants]

/-- The lines with the name of the root are none that stands further in. -/
theorem root_ne {marker : String} (h : marker.toList.head? = some ' ') :
    "pub enum " ++ dispatcher.root ++ " \x7b" ≠ marker ∧
      "impl BinRead for " ++ dispatcher.root ++ " \x7b" ≠ marker ∧
      "impl " ++ dispatcher.root ++ " \x7b" ≠ marker := by
  refine ⟨ne_of_head ?_, ne_of_head ?_, ne_of_head ?_⟩ <;> simp [h]

/-- The block of the reader has the arm of each variant. -/
theorem readerBlock_lines :
    readerBlock dispatcher.lines = dispatcher.variants.map readerLine := by
  have hmarker : endsInComma "        match name \x7b" = false := by decide
  obtain ⟨henum, hread, -⟩ :=
    dispatcher.root_ne (by simp : "        match name \x7b".toList.head? = some ' ')
  have hvariants := linesBehind_listing endsInComma_variantLine hmarker dispatcher.variants
  have hreaders := linesUpTo_listing endsInComma_readerLine
    (by decide : endsInComma "            _ => Err(Error::Custom \x7b" = false) dispatcher.variants
  simp [readerBlock, lines, linesBehind, hvariants, hreaders, henum, hread]

/-- The block of the names has the arm of each variant. -/
theorem nameBlock_lines :
    functionBlock nameSignature dispatcher.lines = dispatcher.variants.map nameLine := by
  have hmarker : endsInComma nameSignature = false := by decide
  obtain ⟨henum, hread, hown⟩ :=
    dispatcher.root_ne (by simp [nameSignature] : nameSignature.toList.head? = some ' ')
  have hvariants := linesBehind_listing endsInComma_variantLine hmarker dispatcher.variants
  have hreaders := linesBehind_listing endsInComma_readerLine hmarker dispatcher.variants
  have hnames := linesUpTo_listing endsInComma_nameLine
    (by decide : endsInComma "        \x7d" = false) dispatcher.variants
  unfold nameSignature at *
  simp [functionBlock, lines, linesBehind, hvariants, hreaders, hnames, henum, hread, hown]

/-- The block of the lineages has the arm of each variant. -/
theorem lineageBlock_lines :
    functionBlock lineageSignature dispatcher.lines = dispatcher.variants.map lineageLine := by
  have hmarker : endsInComma lineageSignature = false := by decide
  obtain ⟨henum, hread, hown⟩ :=
    dispatcher.root_ne (by simp [lineageSignature] : lineageSignature.toList.head? = some ' ')
  have hvariants := linesBehind_listing endsInComma_variantLine hmarker dispatcher.variants
  have hreaders := linesBehind_listing endsInComma_readerLine hmarker dispatcher.variants
  have hnames := linesBehind_listing endsInComma_nameLine hmarker dispatcher.variants
  have hlineages := linesUpTo_listing endsInComma_lineageLine
    (by decide : endsInComma "        \x7d" = false) dispatcher.variants
  unfold lineageSignature at *
  simp [functionBlock, lines, linesBehind, hvariants, hreaders, hnames, hlineages, henum, hread,
    hown]

end Blocks

/-- Lines that can each be read in one way are read in one way together. -/
theorem forall₂_map_iff {α β γ : Type} {reads : β → γ → Prop} {line : α → β} {value : α → γ}
    {items : List α} (h : ∀ item ∈ items, ∀ arm, reads (line item) arm ↔ arm = value item)
    {found : List γ} :
    List.Forall₂ reads (items.map line) found ↔ found = items.map value := by
  induction items generalizing found with
  | nil => simp
  | cons item items ih =>
    rw [List.map_cons, List.map_cons, List.forall₂_cons_left_iff]
    have hrest (arms : List γ) :
        List.Forall₂ reads (items.map line) arms ↔ arms = items.map value :=
      ih fun other hother => h other (by simp [hother])
    simp only [h item (by simp), hrest]
    constructor
    · rintro ⟨arm, arms, rfl, rfl, rfl⟩
      rfl
    · rintro rfl
      exact ⟨_, _, rfl, rfl, rfl⟩

end Dispatcher

namespace Model

variable {profile : Profile} {document : Document} {model : Model}

/-- The objects that are not abstract, by name and in order. -/
def concreteNames (model : Model) : List String :=
  (model.objects.entries.filter (!·.2.isAbstract)).map Prod.fst

/-- Every object of a model is stored under its name. -/
theorem name_of_mem_objects (h : ofDocument profile document = .ok model) {name : String}
    {object : NiObject} (hmem : (name, object) ∈ model.objects.entries) : object.name = name := by
  have hentity : (name, Entity.object object) ∈ (model.entities .object).entries :=
    List.mem_map.mpr ⟨(name, object), hmem, rfl⟩
  obtain ⟨entry, -, hentry⟩ := exists_entry_of_mem h hentity
  obtain ⟨⟨read, findings⟩, -, hsame⟩ := map_eq_ok_iff.mp hentry
  cases hsame
  rfl

/-- The hierarchy of a model is that of its objects. -/
theorem names_hierarchy (h : ofDocument profile document = .ok model) :
    model.hierarchy.names = model.objects.keys ∧ model.hierarchy.links.Closed := by
  obtain ⟨entries, structures, -, -, hresolve, hstructures, -⟩ := exists_of_ofDocument h
  refine ⟨?_, Hierarchy.closed_of_resolve hresolve⟩
  rw [Hierarchy.names, Hierarchy.links_of_resolve hresolve, ParentLinks.keys_resolved, hstructures]
  simp [parentLinks, OrderedMap.keys, OrderedMap.mapValues, Function.comp_def]

/-- The names of the objects that are not abstract are those under which they are stored. -/
theorem map_name_concreteObjects (h : ofDocument profile document = .ok model) :
    model.concreteObjects.map NiObject.name = model.concreteNames := by
  unfold concreteObjects concreteNames OrderedMap.values
  rw [List.filter_map, List.map_map]
  refine List.map_congr_left fun entry hentry => ?_
  exact name_of_mem_objects h (List.mem_filter.mp hentry).1

end Model

namespace Dispatcher

variable {building generating : Profile} {document : Document} {model : Model}

/-- A name is in the lineage of an object exactly if it is that of the root or the object inherits
from it. -/
theorem mem_lineage_iff (hmodel : Model.ofDocument building document = .ok model)
    {root name : String} (hname : name ∈ model.objects.keys) {ancestor : String} :
    ancestor ∈ name :: model.hierarchy.ancestors name ++ [root] ↔
      ancestor = root ∨ model.hierarchy.inheritsFrom name ancestor = true := by
  have hknown : name ∈ model.hierarchy.names := by
    rwa [(Model.names_hierarchy hmodel).1]
  rw [Hierarchy.inheritsFrom_iff]
  simp only [List.cons_append, List.mem_cons, List.mem_append, List.not_mem_nil, or_false, hknown,
    true_and, eq_comm (a := name)]
  tauto

/-- The lineages of a dispatcher agree with its model. In the source, which stands in that of the
objects, the variants, the arms of the reader, those with the names and those with the lineages can
each be read in one way only. They are those of the objects that are not abstract, each once and in
order. The pattern of an object holds exactly the root and whatever the object inherits from. -/
theorem lineages_agree (hmodel : Model.ofDocument building document = .ok model)
    (hnames : ∀ name ∈ model.objects.keys, isUnescaped name = true)
    (hroot : isUnescaped generating.rootObject = true) :
    let source := (ofModel generating model).lines
    let names := model.concreteNames
    (∀ bindings, Bindings.ofModel generating model = .ok bindings →
      ∃ front back, bindings.objects = joinLines (front ++ source ++ back)) ∧
    names.Nodup ∧
    (∀ found, List.Forall₂ Arm.Declares (variantBlock generating.rootObject source) found ↔
      found = names) ∧
    (∀ found, List.Forall₂ Arm.Reads (readerBlock source) found ↔
      found = names.map fun name => ⟨name, name⟩) ∧
    (∀ found, List.Forall₂ Arm.Names (functionBlock nameSignature source) found ↔
      found = names.map fun name => ⟨name, name⟩) ∧
    ∃ pattern : String → List String,
      (∀ found, List.Forall₂ Arm.Compares (functionBlock lineageSignature source) found ↔
        found = names.map fun name => (name, pattern name)) ∧
      ∀ name ∈ names, ∀ ancestor, ancestor ∈ pattern name ↔
        ancestor = generating.rootObject ∨
          model.hierarchy.inheritsFrom name ancestor = true := by
  have hknown : model.concreteNames ⊆ model.objects.keys :=
    (List.filter_sublist.map Prod.fst).subset
  have hvariants : (ofModel generating model).variants.map BlockVariant.name =
      model.concreteNames := by
    rw [← Model.map_name_concreteObjects hmodel, ofModel, List.map_map]
    rfl
  let pattern (name : String) : List String :=
    name :: model.hierarchy.ancestors name ++ [generating.rootObject]
  have hlineage : ∀ variant ∈ (ofModel generating model).variants,
      isUnescaped variant.name = true ∧ variant.lineage = pattern variant.name ∧
        ∀ name ∈ variant.lineage, isUnescaped name = true := by
    intro variant hvariant
    have hname : variant.name ∈ model.objects.keys :=
      hknown (hvariants ▸ List.mem_map_of_mem hvariant)
    obtain ⟨object, -, rfl⟩ := List.mem_map.mp hvariant
    refine ⟨hnames _ hname, rfl, fun name hmem => ?_⟩
    rcases (mem_lineage_iff hmodel hname).mp hmem with rfl | hinherits
    · exact hroot
    · obtain ⟨hhierarchy, hclosed⟩ := Model.names_hierarchy hmodel
      exact hnames name (hhierarchy ▸ Hierarchy.mem_names_of_inheritsFrom hclosed hinherits)
  refine ⟨fun bindings => exists_lines_of_ofModel,
    (List.filter_sublist.map Prod.fst).nodup model.objects.keys_nodup, ?_, ?_, ?_, pattern, ?_,
    fun name hname ancestor => mem_lineage_iff hmodel (hknown hname)⟩
  · intro found
    rw [show generating.rootObject = (ofModel generating model).root from rfl, variantBlock_lines,
      forall₂_map_iff fun variant _ name => declares_variantLine_iff, hvariants]
  · intro found
    rw [readerBlock_lines, ← hvariants, List.map_map]
    exact forall₂_map_iff fun variant hvariant arm => reads_readerLine_iff (hlineage _ hvariant).1
  · intro found
    rw [nameBlock_lines, ← hvariants, List.map_map]
    exact forall₂_map_iff fun variant hvariant arm => names_nameLine_iff (hlineage _ hvariant).1
  · intro found
    rw [lineageBlock_lines, ← hvariants, List.map_map]
    refine forall₂_map_iff fun variant hvariant arm => ?_
    obtain ⟨hname, hpattern, hunescaped⟩ := hlineage variant hvariant
    rw [compares_lineageLine_iff hname (by simp [hpattern, pattern]) hunescaped, hpattern]
    rfl

/-- An object of a scene. -/
def sceneElement (name inherit abstract : String) : Element where
  tag := "niobject"
  attributes := .ofList [("name", name), ("inherit", inherit), ("abstract", abstract)]
  text := ""
  children := []

/-- A chain of objects of which only the last is not abstract, and an object without its parent. -/
def sceneDocument : Document where
  version := none
  entries := [sceneElement "NiObjectNET" "NiObject" "true",
    sceneElement "NiAVObject" "NiObjectNET" "true", sceneElement "NiNode" "NiAVObject" "false",
    sceneElement "NiOrphan" "NiGone" "false"]

/-- The dispatcher of the scene lists the two objects that are not abstract, and the pattern of the
node holds the whole chain above it. -/
theorem lineages_agree_scene :
    ∃ model, Model.ofDocument .default sceneDocument = .ok model ∧
      (∀ found, List.Forall₂ Arm.Declares
        (variantBlock "NiObject" (ofModel .default model).lines) found ↔
          found = ["NiNode", "NiOrphan"]) ∧
      ∃ pattern : String → List String,
        (∀ found, List.Forall₂ Arm.Compares
          (functionBlock lineageSignature (ofModel .default model).lines) found ↔
            found = [("NiNode", pattern "NiNode"), ("NiOrphan", pattern "NiOrphan")]) ∧
        "NiObjectNET" ∈ pattern "NiNode" ∧ "NiObject" ∈ pattern "NiOrphan" ∧
        "NiGone" ∉ pattern "NiOrphan" := by
  have hview : (Model.ofDocument .default sceneDocument).toOption.map (fun model =>
      (model.objects.keys, model.concreteNames,
        model.hierarchy.inheritsFrom "NiNode" "NiObjectNET",
        model.hierarchy.inheritsFrom "NiOrphan" "NiGone")) =
      some (["NiObjectNET", "NiAVObject", "NiNode", "NiOrphan"], ["NiNode", "NiOrphan"], true,
        false) := by
    decide +kernel
  cases hmodel : Model.ofDocument .default sceneDocument with
  | error error =>
    rw [hmodel] at hview
    cases hview
  | ok model =>
    simp only [hmodel, Except.toOption, Option.map_some, Option.some.injEq, Prod.mk.injEq] at hview
    obtain ⟨hkeys, hnames, hnode, horphan⟩ := hview
    obtain ⟨-, -, hdeclared, -, -, pattern, hcompared, hpattern⟩ :=
      @lineages_agree .default .default _ model hmodel (by rw [hkeys]; decide) (by decide)
    rw [hnames] at hdeclared hcompared hpattern
    refine ⟨model, rfl, hdeclared, pattern, hcompared, ?_, ?_, ?_⟩
    · exact (hpattern "NiNode" (by decide) "NiObjectNET").mpr (.inr hnode)
    · exact (hpattern "NiOrphan" (by decide) "NiObject").mpr (.inl rfl)
    · rw [hpattern "NiOrphan" (by decide), horphan]
      decide

end Dispatcher

end NifBindings
