import SparqlGenerate.Proofs.PlanOutline
import SparqlGenerate.Proofs.SameText

/-!
# Reading a plan back from its S-expression

Where the texts of the parts are legible, the S-expression of a plan determines its outline. An
expression may start with a parenthesis itself, so the parentheses alone do not show where a list
starts. But each list has a first word, or members that are all of one kind, and what comes next is
always known from what was read. So there is one law for a word and one for a list, and each node
of a plan is read back by putting these together.
-/

namespace SparqlGenerate

/-! ## Reading back -/

/-- By its text and what follows it, a blank or a closing parenthesis, the value is told from all
values with the property. -/
def ReadsBack {α : Type} (text : α → String) (P : α → Prop) (a : α) : Prop :=
  ∀ b, P b → ∀ rest further, StartsWith Part.followers rest → StartsWith Part.followers further →
    ahead (text a) rest = ahead (text b) further → a = b ∧ rest = further

theorem startsWith_blank (rest : List Char) : StartsWith Part.followers (ahead " " rest) :=
  startsWith_ahead (by simp [Part.followers]) rest

theorem startsWith_close (rest : List Char) : StartsWith Part.followers (ahead ")" rest) :=
  startsWith_ahead (by simp [Part.followers]) rest

namespace ReadsBack

variable {α : Type} {text : α → String} {P : α → Prop} {a b : α} {rest further : List Char}

theorem before_blank (h : ReadsBack text P a) (hb : P b)
    (hsame : ahead (text a) (ahead " " rest) = ahead (text b) (ahead " " further)) :
    a = b ∧ rest = further := by
  obtain ⟨hvalue, htail⟩ := h b hb _ _ (startsWith_blank rest) (startsWith_blank further) hsame
  exact ⟨hvalue, ahead_injective htail⟩

theorem before_close (h : ReadsBack text P a) (hb : P b)
    (hsame : ahead (text a) (ahead ")" rest) = ahead (text b) (ahead ")" further)) :
    a = b ∧ rest = further := by
  obtain ⟨hvalue, htail⟩ := h b hb _ _ (startsWith_close rest) (startsWith_close further) hsame
  exact ⟨hvalue, ahead_injective htail⟩

end ReadsBack

/-! ## Lists -/

theorem ahead_blankList_nil (rest : List Char) :
    ahead (blankList []) rest = ahead "(" (ahead ")" rest) := by
  simp [blankList, inParens, ahead]

theorem ahead_blankList_cons (piece : String) (pieces : List String) (rest : List Char) :
    ahead (blankList (piece :: pieces)) rest =
      ahead "(" (ahead piece (aheadEach " " pieces (ahead ")" rest))) := by
  simp only [blankList_cons, ahead_append, ahead_leading]

theorem startsWith_blankList (pieces : List String) (rest : List Char) :
    StartsWith ["("] (ahead (blankList pieces) rest) := by
  cases pieces with
  | nil =>
      rw [ahead_blankList_nil]
      exact startsWith_self "(" _
  | cons piece pieces =>
      rw [ahead_blankList_cons]
      exact startsWith_self "(" _

/-- The letter after the parenthesis is that of the first word. -/
theorem head?_tail_blankList {word : String} {c : Char} {tail : List Char}
    (hword : word.toList = c :: tail) (pieces : List String) (rest : List Char) :
    (ahead (blankList (word :: pieces)) rest).tail.head? = some c := by
  rw [ahead_blankList_cons]
  simp [ahead, hword]

theorem startsWith_members (pieces : List String) (rest : List Char) :
    StartsWith Part.followers (aheadEach " " pieces (ahead ")" rest)) :=
  startsWith_aheadEach (by simp [Part.followers]) (by simp [Part.followers]) pieces
    (startsWith_self ")" rest)

section Lists

variable {α : Type} {text : α → String} {P : α → Prop} {members others : List α}
  {rest further : List Char}

/-- The members of a list are read back up to its end, where no blank is written. -/
theorem eq_of_members (hmembers : ∀ a ∈ members, ReadsBack text P a)
    (hothers : ∀ b ∈ others, P b)
    (h : aheadEach " " (members.map text) (ahead ")" rest) =
      aheadEach " " (others.map text) (ahead ")" further)) :
    members = others ∧ rest = further := by
  induction members generalizing others with
  | nil =>
      cases others with
      | nil => exact ⟨rfl, ahead_injective h⟩
      | cons b others => simp [aheadEach, ahead] at h
  | cons a members ih =>
      cases others with
      | nil => simp [aheadEach, ahead] at h
      | cons b others =>
          obtain ⟨ha, hmore⟩ := List.forall_mem_cons.mp hmembers
          obtain ⟨hb, hlater⟩ := List.forall_mem_cons.mp hothers
          rw [List.map_cons, List.map_cons, aheadEach, aheadEach] at h
          obtain ⟨rfl, htail⟩ := ha b hb _ _ (startsWith_members _ _) (startsWith_members _ _)
            (ahead_injective h)
          obtain ⟨rfl, rfl⟩ := ih hmore hlater htail
          exact ⟨rfl, rfl⟩

/-- A list after a first word is read back whatever follows it. -/
theorem eq_of_headed {word : String} (hmembers : ∀ a ∈ members, ReadsBack text P a)
    (hothers : ∀ b ∈ others, P b)
    (h : ahead (blankList (word :: members.map text)) rest =
      ahead (blankList (word :: others.map text)) further) :
    members = others ∧ rest = further := by
  rw [ahead_blankList_cons, ahead_blankList_cons] at h
  exact eq_of_members hmembers hothers (ahead_injective (ahead_injective h))

/-- A list without a first word is read back if no member looks like its end. -/
theorem readsBack_blankList {P : String → Prop}
    (hclose : ∀ text, P text → ∀ rest, ¬ StartsWith [")"] (ahead text rest))
    {texts : List String} (htexts : ∀ text ∈ texts, ReadsBack id P text)
    (hvalid : ∀ text ∈ texts, P text) :
    ReadsBack blankList (fun texts => ∀ text ∈ texts, P text) texts := by
  intro others hothers rest further _ _ h
  cases texts with
  | nil =>
      cases others with
      | nil => exact ⟨rfl, ahead_injective h⟩
      | cons other others =>
          rw [ahead_blankList_nil, ahead_blankList_cons] at h
          have hend := ahead_injective h ▸ startsWith_self ")" rest
          exact absurd hend (hclose other (hothers other List.mem_cons_self) _)
  | cons text texts =>
      cases others with
      | nil =>
          rw [ahead_blankList_nil, ahead_blankList_cons] at h
          have hend := ahead_injective h ▸ startsWith_self ")" further
          exact absurd hend (hclose text (hvalid text List.mem_cons_self) _)
      | cons other others =>
          obtain ⟨htext, hmore⟩ := List.forall_mem_cons.mp htexts
          obtain ⟨hother, hlater⟩ := List.forall_mem_cons.mp hothers
          rw [ahead_blankList_cons, ahead_blankList_cons] at h
          obtain ⟨rfl, htail⟩ := htext other hother _ _ (startsWith_members _ _)
            (startsWith_members _ _) (ahead_injective h)
          rw [← List.map_id texts, ← List.map_id others] at htail
          obtain ⟨rfl, rfl⟩ := eq_of_members hmore hlater htail
          exact ⟨rfl, rfl⟩

end Lists

/-! ## Words -/

theorem readsBack_mode (mode : IteratorMode) : ReadsBack IteratorMode.sse (fun _ => True) mode := by
  intro other _ rest further _ _ h
  cases mode <;> cases other <;> simp_all [IteratorMode.sse, ahead]

theorem readsBack_topMark (isTop : Bool) : ReadsBack topMark (fun _ => True) isTop := by
  intro other _ rest further _ _ h
  cases isTop <;> cases other <;> simp_all [topMark, ahead]

namespace Vocabulary.Legible

variable {V : Vocabulary} (hV : V.Legible)

include hV

theorem readsBack_text {part : Part} {text : String} (h : V part text) :
    ReadsBack id (V part) text := by
  intro other hother rest further hrest hfurther hsame
  exact eq_of_ahead_of_followers (hV.delimited part text other h hother) hrest hfurther hsame

theorem readsBack_vars {vars : List String} (h : ∀ text ∈ vars, V .var text) :
    ReadsBack blankList (fun texts => ∀ text ∈ texts, V .var text) vars := by
  refine readsBack_blankList ?_ (fun text htext => hV.readsBack_text (h text htext)) h
  intro text htext rest
  exact ((hV.var text htext).ahead rest).not_paren.2

theorem readsBack_exprs {values : List String} (h : ∀ text ∈ values, V .expr text) :
    ReadsBack blankList (fun texts => ∀ text ∈ texts, V .expr text) values := by
  refine readsBack_blankList ?_ (fun text htext => hV.readsBack_text (h text htext)) h
  intro text htext rest
  obtain ⟨hne, hstart⟩ := hV.expr text htext
  exact not_startsWith_close hne hstart rest

end Vocabulary.Legible

/-! ## Bindings -/

/-- The letter that the word of the clause starts with. -/
def BindingOutline.letter : BindingOutline → Char
  | .iterator .. => 'i'
  | .source .. => 's'
  | .bind .. => 'b'

theorem BindingOutline.head?_tail_text (binding : BindingOutline) (rest : List Char) :
    (ahead binding.text rest).tail.head? = some binding.letter := by
  cases binding with
  | iterator | bind => exact head?_tail_blankList rfl _ rest
  | source document accept var => cases accept <;> exact head?_tail_blankList rfl _ rest

/-- The media type of a source, as it stands before the variable. -/
def mediaText : Option String → String
  | none => ""
  | some media => blankList ["accept", media] ++ " "

theorem ahead_source (document : String) (accept : Option String) (var : String)
    (rest : List Char) :
    ahead (BindingOutline.source document accept var).text rest =
      ahead "(" (ahead "source" (ahead " " (ahead document (ahead " "
        (ahead (mediaText accept) (ahead var (ahead ")" rest))))))) := by
  cases accept with
  | none =>
      simp only [BindingOutline.text, mediaText, ahead_blankList_cons, aheadEach, ahead_empty]
  | some media =>
      simp only [BindingOutline.text, mediaText, ahead_blankList_cons, aheadEach, ahead_append]

namespace Vocabulary.Legible

variable {V : Vocabulary} (hV : V.Legible)

include hV

theorem readsBack_iterator {mode : IteratorMode} {function : String} {arguments vars : List String}
    (h : (BindingOutline.iterator mode function arguments vars).Within V) :
    ReadsBack BindingOutline.text (fun other => other.Within V ∧ other.letter = 'i')
      (.iterator mode function arguments vars) := by
  obtain ⟨hfunction, harguments, hvars⟩ := h
  rintro other ⟨hother, hletter⟩ rest further - - hsame
  cases other with
  | source | bind => cases hletter
  | iterator mode' function' arguments' vars' =>
      obtain ⟨hfunction', harguments', hvars'⟩ := hother
      simp only [BindingOutline.text, ahead_blankList_cons, aheadEach] at hsame
      have hmode := ahead_injective (ahead_injective (ahead_injective hsame))
      obtain ⟨rfl, hname⟩ := (readsBack_mode mode).before_blank trivial hmode
      obtain ⟨rfl, hlists⟩ := (hV.readsBack_text hfunction).before_blank hfunction' hname
      obtain ⟨rfl, hlast⟩ := (hV.readsBack_exprs harguments).before_blank harguments' hlists
      obtain ⟨rfl, hdone⟩ := (hV.readsBack_vars hvars).before_close hvars' hlast
      exact ⟨rfl, hdone⟩

/-- A media type is told from none, since it does not start as a variable does. -/
theorem eq_of_mediaText {accept other : Option String} (haccept : ∀ text ∈ accept, V .term text)
    (hother : ∀ text ∈ other, V .term text) {var var' : String} (hvar : V .var var)
    (hvar' : V .var var') {rest further : List Char}
    (h : ahead (mediaText accept) (ahead var rest) =
      ahead (mediaText other) (ahead var' further)) :
    accept = other ∧ ahead var rest = ahead var' further := by
  have hstart : ∀ text, V .var text → ∀ rest, ¬ StartsWith ["("] (ahead text rest) := by
    intro text htext rest
    exact ((hV.var text htext).ahead rest).not_paren.1
  cases accept with
  | none =>
      cases other with
      | none => exact ⟨rfl, h⟩
      | some media =>
          simp only [mediaText, ahead_empty, ahead_append] at h
          exact absurd (h ▸ startsWith_blankList _ _) (hstart var hvar rest)
  | some media =>
      cases other with
      | none =>
          simp only [mediaText, ahead_empty, ahead_append] at h
          exact absurd (h ▸ startsWith_blankList _ _) (hstart var' hvar' further)
      | some media' =>
          simp only [mediaText, ahead_append, ahead_blankList_cons, aheadEach] at h
          have hmedia := ahead_injective (ahead_injective (ahead_injective h))
          obtain ⟨rfl, htail⟩ :=
            (hV.readsBack_text (haccept media rfl)).before_close (hother media' rfl) hmedia
          exact ⟨rfl, ahead_injective htail⟩

theorem readsBack_source {document var : String} {accept : Option String}
    (h : (BindingOutline.source document accept var).Within V) :
    ReadsBack BindingOutline.text (fun other => other.Within V ∧ other.letter = 's')
      (.source document accept var) := by
  obtain ⟨hdocument, haccept, hvar⟩ := h
  rintro other ⟨hother, hletter⟩ rest further - - hsame
  cases other with
  | iterator | bind => cases hletter
  | source document' accept' var' =>
      obtain ⟨hdocument', haccept', hvar'⟩ := hother
      rw [ahead_source, ahead_source] at hsame
      have hfirst := ahead_injective (ahead_injective (ahead_injective hsame))
      obtain ⟨rfl, hafter⟩ := (hV.readsBack_text hdocument).before_blank hdocument' hfirst
      obtain ⟨rfl, hlast⟩ := hV.eq_of_mediaText haccept haccept' hvar hvar' hafter
      obtain ⟨rfl, hdone⟩ := (hV.readsBack_text hvar).before_close hvar' hlast
      exact ⟨rfl, hdone⟩

theorem readsBack_bind {value var : String} (h : (BindingOutline.bind value var).Within V) :
    ReadsBack BindingOutline.text (fun other => other.Within V ∧ other.letter = 'b')
      (.bind value var) := by
  obtain ⟨hvalue, hvar⟩ := h
  rintro other ⟨hother, hletter⟩ rest further - - hsame
  cases other with
  | iterator | source => cases hletter
  | bind value' var' =>
      obtain ⟨hvalue', hvar'⟩ := hother
      simp only [BindingOutline.text, ahead_blankList_cons, aheadEach] at hsame
      have hfirst := ahead_injective (ahead_injective (ahead_injective hsame))
      obtain ⟨rfl, hlast⟩ := (hV.readsBack_text hvar).before_blank hvar' hfirst
      obtain ⟨rfl, hdone⟩ := (hV.readsBack_text hvalue).before_close hvalue' hlast
      exact ⟨rfl, hdone⟩

theorem readsBack_binding {binding : BindingOutline} (h : binding.Within V) :
    ReadsBack BindingOutline.text (BindingOutline.Within V) binding := by
  intro other hother rest further hrest hfurther hsame
  have hletter := congrArg (fun chars => chars.tail.head?) hsame
  simp only [BindingOutline.head?_tail_text, Option.some.injEq] at hletter
  cases binding with
  | iterator mode function arguments vars =>
      exact hV.readsBack_iterator h other ⟨hother, hletter.symm⟩ _ _ hrest hfurther hsame
  | source document accept var =>
      exact hV.readsBack_source h other ⟨hother, hletter.symm⟩ _ _ hrest hfurther hsame
  | bind value var =>
      exact hV.readsBack_bind h other ⟨hother, hletter.symm⟩ _ _ hrest hfurther hsame

end Vocabulary.Legible

/-! ## Patterns -/

/-- The further word of a plan for a `SELECT` query, as it stands before the parameters. -/
def selectWord (isSelect : Bool) : String :=
  if isSelect then "select " else ""

theorem ahead_select (isSelect : Bool) (parameters : List String) (query : String)
    (rest : List Char) :
    ahead (SelectOutline.text ⟨isSelect, parameters, query⟩) rest =
      ahead "(select " (ahead (selectWord isSelect) (ahead (blankList parameters) (ahead " "
        (ahead query (ahead ")" rest))))) := by
  simp only [SelectOutline.text, ahead_blankList_cons]
  cases isSelect <;> simp [selectWord, aheadEach, ahead]

/-- The further word is told from the list of the parameters. -/
theorem eq_of_selectWord {isSelect other : Bool} {parameters parameters' : List String}
    {rest further : List Char}
    (h : ahead (selectWord isSelect) (ahead (blankList parameters) rest) =
      ahead (selectWord other) (ahead (blankList parameters') further)) :
    isSelect = other ∧ ahead (blankList parameters) rest = ahead (blankList parameters') further := by
  have hword : ∀ rest, ¬ StartsWith ["("] (ahead "select " rest) := by
    simp [StartsWith, ahead]
  cases isSelect <;> cases other
  · exact ⟨rfl, h⟩
  · exact absurd (h ▸ startsWith_blankList parameters rest) (hword _)
  · exact absurd (h ▸ startsWith_blankList parameters' further) (hword _)
  · exact ⟨rfl, ahead_injective h⟩

namespace Vocabulary.Legible

variable {V : Vocabulary} (hV : V.Legible)

include hV

theorem readsBack_select {select : SelectOutline} (h : select.Within V) :
    ReadsBack SelectOutline.text (SelectOutline.Within V) select := by
  intro other hother rest further _ _ hsame
  obtain ⟨isSelect, parameters, query⟩ := select
  obtain ⟨isSelect', parameters', query'⟩ := other
  obtain ⟨hparameters, hquery⟩ := h
  obtain ⟨hparameters', hquery'⟩ := hother
  rw [ahead_select, ahead_select] at hsame
  obtain ⟨rfl, hlists⟩ := eq_of_selectWord (ahead_injective hsame)
  obtain ⟨rfl, hlast⟩ := (hV.readsBack_vars hparameters).before_blank hparameters' hlists
  obtain ⟨rfl, hdone⟩ := (hV.readsBack_text hquery).before_close hquery' hlast
  exact ⟨rfl, hdone⟩

theorem readsBack_pattern {triple : PatternOutline} (h : triple.Within V) :
    ReadsBack PatternOutline.text (PatternOutline.Within V) triple := by
  intro other hother rest further _ _ hsame
  obtain ⟨subject, predicate, object⟩ := triple
  obtain ⟨subject', predicate', object'⟩ := other
  obtain ⟨hsubject, hpredicate, hobject⟩ := h
  obtain ⟨hsubject', hpredicate', hobject'⟩ := hother
  simp only [PatternOutline.text, ahead_blankList_cons, aheadEach] at hsame
  have hfirst := ahead_injective (ahead_injective (ahead_injective hsame))
  obtain ⟨rfl, hafter⟩ := (hV.readsBack_text hsubject).before_blank hsubject' hfirst
  obtain ⟨rfl, hlast⟩ := (hV.readsBack_text hpredicate).before_blank hpredicate' hafter
  obtain ⟨rfl, hdone⟩ := (hV.readsBack_text hobject).before_close hobject' hlast
  exact ⟨rfl, hdone⟩

end Vocabulary.Legible

/-! ## Outputs and plans -/

/-- The letter that the first word of the output starts with. -/
def OutputOutline.letter : OutputOutline → Char
  | .call .. => 'c'
  | .template _ => 'g'

theorem OutputOutline.head?_tail_text (output : OutputOutline) (rest : List Char) :
    (ahead output.text rest).tail.head? = some output.letter := by
  cases output <;> exact head?_tail_blankList rfl _ rest

def PlanElementOutline.letter : PlanElementOutline → Char
  | .triples _ => 't'
  | .plan _ => 'r'

theorem PlanElementOutline.head?_tail_text (element : PlanElementOutline) (rest : List Char) :
    (ahead element.text rest).tail.head? = some element.letter := by
  cases element with
  | triples triples => exact head?_tail_blankList rfl _ rest
  | plan plan =>
      obtain ⟨isTop, bindings, select, output⟩ := plan
      exact head?_tail_blankList rfl _ rest

namespace Vocabulary.Legible

variable {V : Vocabulary} (hV : V.Legible)

section Elements

omit hV

theorem readsBack_template {elements : List PlanElementOutline}
    (helements : ∀ element ∈ elements,
      ReadsBack PlanElementOutline.text (PlanElementOutline.Within V) element) :
    ReadsBack OutputOutline.text (OutputOutline.Within V) (.template elements) := by
  intro other hother rest further _ _ hsame
  have hletter := congrArg (fun chars => chars.tail.head?) hsame
  simp only [OutputOutline.head?_tail_text, Option.some.injEq] at hletter
  cases other with
  | call name parameters => cases hletter
  | template others =>
      have hothers := PlanElementOutline.withinEach_iff.mp hother
      rw [OutputOutline.text, OutputOutline.text, PlanElementOutline.textEach_eq_map,
        PlanElementOutline.textEach_eq_map] at hsame
      obtain ⟨rfl, hdone⟩ := eq_of_headed helements hothers hsame
      exact ⟨rfl, hdone⟩

theorem readsBack_nested {plan : PlanOutline}
    (hplan : ReadsBack PlanOutline.text (PlanOutline.Within V) plan) :
    ReadsBack PlanElementOutline.text (PlanElementOutline.Within V) (.plan plan) := by
  intro other hother rest further hrest hfurther hsame
  have hletter := congrArg (fun chars => chars.tail.head?) hsame
  simp only [PlanElementOutline.head?_tail_text, Option.some.injEq] at hletter
  cases other with
  | triples triples => cases hletter
  | plan other =>
      obtain ⟨rfl, hdone⟩ := hplan other hother rest further hrest hfurther hsame
      exact ⟨rfl, hdone⟩

end Elements

include hV

theorem readsBack_call {name : String} {parameters : List String}
    (h : (OutputOutline.call name parameters).Within V) :
    ReadsBack OutputOutline.text (OutputOutline.Within V) (.call name parameters) := by
  obtain ⟨hname, hparameters⟩ := h
  intro other hother rest further _ _ hsame
  have hletter := congrArg (fun chars => chars.tail.head?) hsame
  simp only [OutputOutline.head?_tail_text, Option.some.injEq] at hletter
  cases other with
  | template elements => cases hletter
  | call name' parameters' =>
      obtain ⟨hname', hparameters'⟩ := hother
      simp only [OutputOutline.text, ahead_blankList_cons, aheadEach] at hsame
      have hfirst := ahead_injective (ahead_injective (ahead_injective hsame))
      obtain ⟨rfl, hlast⟩ := (hV.readsBack_text hname).before_blank hname' hfirst
      obtain ⟨rfl, hdone⟩ := (hV.readsBack_exprs hparameters).before_close hparameters' hlast
      exact ⟨rfl, hdone⟩

theorem readsBack_triples {triples : List PatternOutline}
    (h : ∀ triple ∈ triples, triple.Within V) :
    ReadsBack PlanElementOutline.text (PlanElementOutline.Within V) (.triples triples) := by
  intro other hother rest further _ _ hsame
  have hletter := congrArg (fun chars => chars.tail.head?) hsame
  simp only [PlanElementOutline.head?_tail_text, Option.some.injEq] at hletter
  cases other with
  | plan plan => cases hletter
  | triples others =>
      obtain ⟨rfl, hdone⟩ :=
        eq_of_headed (fun triple htriple => hV.readsBack_pattern (h triple htriple)) hother hsame
      exact ⟨rfl, hdone⟩

/-- A plan is read back if its output is, whether or not there is one. -/
theorem readsBack_root {isTop : Bool} {bindings : List BindingOutline} {select : SelectOutline}
    {output : Option OutputOutline}
    (h : PlanOutline.Within V ⟨isTop, bindings, select, output⟩)
    (houtput : ∀ form ∈ output.toList,
      ReadsBack OutputOutline.text (OutputOutline.Within V) form) :
    ReadsBack PlanOutline.text (PlanOutline.Within V) ⟨isTop, bindings, select, output⟩ := by
  obtain ⟨hbindings, hselect, -⟩ := h
  intro other hother rest further _ _ hsame
  obtain ⟨isTop', bindings', select', output'⟩ := other
  obtain ⟨hbindings', hselect', houtput'⟩ := hother
  rw [PlanOutline.text, PlanOutline.text, ahead_blankList_cons, ahead_blankList_cons,
    OutputOutline.textEach_eq_map, OutputOutline.textEach_eq_map] at hsame
  simp only [aheadEach] at hsame
  have hmark := ahead_injective (ahead_injective (ahead_injective hsame))
  obtain ⟨rfl, hlist⟩ := (readsBack_topMark isTop).before_blank trivial hmark
  obtain ⟨rfl, hafter⟩ :=
    eq_of_headed (fun binding hbinding => hV.readsBack_binding (hbindings binding hbinding))
      hbindings' hlist
  obtain ⟨rfl, hlast⟩ := hV.readsBack_select hselect select' hselect' _ _
    (startsWith_members _ rest) (startsWith_members _ further) (ahead_injective hafter)
  obtain ⟨hform, hdone⟩ := eq_of_members houtput (OutputOutline.withinIn_iff.mp houtput') hlast
  obtain rfl : output = output' := by simpa using congrArg List.head? hform
  exact ⟨rfl, hdone⟩

end Vocabulary.Legible

mutual

/-- An outline of a plan is read back from its S-expression, up to what follows it. -/
theorem PlanOutline.readsBack {V : Vocabulary} (hV : V.Legible) : (plan : PlanOutline) →
    plan.Within V → ReadsBack PlanOutline.text (PlanOutline.Within V) plan
  | ⟨_, _, _, output⟩, h => hV.readsBack_root h (OutputOutline.readsBackIn hV output h.2.2)

theorem OutputOutline.readsBackIn {V : Vocabulary} (hV : V.Legible) :
    (output : Option OutputOutline) → OutputOutline.WithinIn V output → ∀ form ∈ output.toList,
      ReadsBack OutputOutline.text (OutputOutline.Within V) form
  | none, _ => fun _ hform => absurd hform List.not_mem_nil
  | some output, h => List.forall_mem_singleton.mpr (OutputOutline.readsBack hV output h)

theorem OutputOutline.readsBack {V : Vocabulary} (hV : V.Legible) : (output : OutputOutline) →
    output.Within V → ReadsBack OutputOutline.text (OutputOutline.Within V) output
  | .call _ _, h => hV.readsBack_call h
  | .template elements, h =>
    Vocabulary.Legible.readsBack_template (PlanElementOutline.readsBackEach hV elements h)

theorem PlanElementOutline.readsBack {V : Vocabulary} (hV : V.Legible) :
    (element : PlanElementOutline) → element.Within V →
      ReadsBack PlanElementOutline.text (PlanElementOutline.Within V) element
  | .triples _, h => hV.readsBack_triples h
  | .plan plan, h => Vocabulary.Legible.readsBack_nested (PlanOutline.readsBack hV plan h)

theorem PlanElementOutline.readsBackEach {V : Vocabulary} (hV : V.Legible) :
    (elements : List PlanElementOutline) → PlanElementOutline.WithinEach V elements →
      ∀ element ∈ elements,
      ReadsBack PlanElementOutline.text (PlanElementOutline.Within V) element
  | [], _ => fun _ helement => absurd helement List.not_mem_nil
  | element :: rest, h => List.forall_mem_cons.mpr
    ⟨PlanElementOutline.readsBack hV element h.1, PlanElementOutline.readsBackEach hV rest h.2⟩

end

/-- Where the texts of the parts are legible, two plans have the same S-expression if and only if
they have the same outline: they are equal at all nodes, but for the queries that were compiled,
the bases of calls, and parts of plain SPARQL that have the same text. All texts of a spelling make
up a vocabulary that no plan falls outside of. -/
theorem sse_tells_outline (w : Spelling) :
    (∀ plan, (w.planOutline plan).Within w.vocabulary) ∧
    ∀ V : Vocabulary, V.Legible → ∀ first second : Plan,
      (w.planOutline first).Within V → (w.planOutline second).Within V →
      (w.plan first = w.plan second ↔ w.planOutline first = w.planOutline second) := by
  refine ⟨w.within_planOutline, ?_⟩
  intro V hV first second hfirst hsecond
  rw [← w.text_planOutline, ← w.text_planOutline]
  constructor
  · intro hsame
    -- Nothing follows the plan of a whole query, so any end may be written after both.
    have hclosed := congrArg (fun text => ahead text (ahead ")" [])) hsame
    obtain ⟨houtline, -⟩ :=
      (PlanOutline.readsBack hV _ hfirst).before_close hsecond hclosed
    exact houtline
  · intro houtline
    rw [houtline]

/-! ## Words -/

/-- The terms, variables and expressions that are written as one word, and the `SELECT` query of
the empty pattern. -/
def Vocabulary.words : Vocabulary
  | .term, text => ∀ c ∈ text.toList, ¬ IsStop c
  | .var, text => StartsWith ["?"] text.toList ∧ ∀ c ∈ text.toList, ¬ IsStop c
  | .expr, text => text ≠ "" ∧ ∀ c ∈ text.toList, ¬ IsStop c
  | .select, text => text = "(bgp)"

theorem Part.exists_stop {next : String} (h : next ∈ followers) :
    ∃ c, next.toList = [c] ∧ IsStop c := by
  rcases List.mem_pair.mp h with rfl | rfl
  · exact ⟨' ', rfl, by decide⟩
  · exact ⟨')', rfl, by decide⟩

namespace Vocabulary

theorem not_isStop_of_words {part : Part} (hpart : part ≠ .select) {text : String}
    (h : words part text) : ∀ c ∈ text.toList, ¬ IsStop c := by
  cases part with
  | term => exact h
  | var | expr => exact h.2
  | select => exact absurd rfl hpart

theorem words_legible : words.Legible where
  var _ h := h.1
  expr text h := by
    refine ⟨h.1, ?_⟩
    rintro ⟨opening, hopening, tail, htail⟩
    obtain rfl := List.mem_singleton.mp hopening
    exact h.2 ')' (htail ▸ List.mem_cons_self) (by decide)
  delimited part first second hfirst hsecond next hnext other hother rest further h := by
    by_cases hpart : part = .select
    · subst hpart
      exact hfirst.trans hsecond.symm
    · obtain ⟨c, hc, hstop⟩ := Part.exists_stop hnext
      obtain ⟨d, hd, hlast⟩ := Part.exists_stop hother
      replace h := String.toList_inj.mpr h
      simp only [String.toList_append, List.append_assoc, hc, hd] at h
      apply String.toList_inj.mp
      exact eq_of_stop IsStop (not_isStop_of_words hpart hfirst)
        (not_isStop_of_words hpart hsecond) hstop hlast h

end Vocabulary

/-- A plan with a source, and with a call in its template after an empty block of triples. -/
def sourcePlan (source : Query) (accept : Option VarOrIri) (base : Option Iri) : Plan where
  source := source
  bindings := [.source (.iri ⟨"d"⟩) accept ⟨"v"⟩]
  select := ⟨⟨none, .unit, none⟩, false, [⟨"v"⟩]⟩
  output := some (.template [.triples [], .plan
    ⟨source, [], ⟨⟨none, .unit, none⟩, false, []⟩,
      some (.call ⟨base, .iri ⟨"n"⟩, [.var ⟨"v"⟩]⟩), false⟩])
  isTop := true

/-- The source and the base of the call are not shown, and the media type is. -/
theorem sse_tells_media_type :
    (sourcePlan (.ofForm .select) (some (.iri ⟨"m"⟩)) none).sse =
        (sourcePlan (.ofForm .template) (some (.iri ⟨"m"⟩)) (some ⟨"b"⟩)).sse ∧
      (sourcePlan (.ofForm .select) (some (.iri ⟨"m"⟩)) none).sse ≠
        (sourcePlan (.ofForm .select) none none).sse := by
  have hterm : ∀ name ∈ ["d", "m", "n"], Vocabulary.words .term (Iri.mk name).text := by
    simp [Vocabulary.words, Iri.text, IsStop]
  have hvar : Vocabulary.words .var (Var.text ⟨"v"⟩) := by
    simp [Vocabulary.words, Var.text, StartsWith, IsStop]
  have hexpr : Vocabulary.words .expr (Expr.text (.var ⟨"v"⟩)) := by
    simp [Vocabulary.words, Expr.text, Var.text, IsStop]
  have hwithin : ∀ source base, ∀ accept : Option VarOrIri,
      (∀ media ∈ accept, media = .iri ⟨"m"⟩) →
        (Spelling.sparql.planOutline (sourcePlan source accept base)).Within .words := by
    intro source base accept haccept
    have hcall : OutputOutline.Within .words
        (Spelling.sparql.outputOutline (.call ⟨base, .iri ⟨"n"⟩, [.var ⟨"v"⟩]⟩)) :=
      ⟨hterm "n" (by simp), List.forall_mem_singleton.mpr hexpr⟩
    refine ⟨List.forall_mem_singleton.mpr ⟨hterm "d" (by simp), ?_, hvar⟩,
      ⟨List.forall_mem_singleton.mpr hvar, rfl⟩, List.forall_mem_nil _,
      ⟨List.forall_mem_nil _, ⟨List.forall_mem_nil _, rfl⟩, hcall⟩, trivial⟩
    intro text htext
    obtain ⟨media, hmedia, rfl⟩ := Option.map_eq_some_iff.mp htext
    obtain rfl := haccept media hmedia
    exact hterm "m" (by simp)
  obtain ⟨-, htells⟩ := sse_tells_outline Spelling.sparql
  have hwords := htells .words Vocabulary.words_legible
  have hsome : ∀ media ∈ some (VarOrIri.iri ⟨"m"⟩), media = .iri ⟨"m"⟩ :=
    fun media hmedia => (Option.some.inj hmedia).symm
  constructor
  · exact (hwords _ _ (hwithin _ _ _ hsome) (hwithin _ _ _ hsome)).mpr rfl
  · intro h
    have hnone := hwithin (.ofForm .select) none none fun _ hmedia => by cases hmedia
    have houtline := (hwords _ _ (hwithin _ _ _ hsome) hnone).mp h
    cases congrArg PlanOutline.bindings houtline

end SparqlGenerate
