import SparqlGenerate.Plan.Sse
import SparqlGenerate.Proofs.Legibility

/-!
# What the S-expression of a plan is made of

The S-expression of a plan shows neither the query that was compiled nor the base of a call, and of
each part of plain SPARQL it shows the text. All else is in it: the outline of a plan is a tree of
the same shape, and the S-expression is that of the outline.

Of the texts it is asked that each can be told from what follows it, and that no variable and no
expression of a list looks like the end of the list. Not all texts that a printer can produce are
like that, so these are properties of a vocabulary, a choice of texts that the parts may have.
-/

namespace SparqlGenerate

/-! ## Outlines -/

inductive BindingOutline where
  | iterator (mode : IteratorMode) (function : String) (arguments vars : List String)
  | source (document : String) (accept : Option String) (var : String)
  | bind (value var : String)
  deriving DecidableEq, Repr

structure SelectOutline where
  isSelect : Bool
  parameters : List String
  query : String
  deriving DecidableEq, Repr

/-- A triple to be written. -/
structure PatternOutline where
  subject : String
  predicate : String
  object : String
  deriving DecidableEq, Repr

mutual

/-- What the S-expression of a plan tells of it. -/
structure PlanOutline where
  isTop : Bool
  bindings : List BindingOutline
  select : SelectOutline
  output : Option OutputOutline

inductive OutputOutline where
  | call (name : String) (parameters : List String)
  | template (elements : List PlanElementOutline)

inductive PlanElementOutline where
  | triples (triples : List PatternOutline)
  | plan (plan : PlanOutline)

end

/-! ## Texts of outlines -/

def BindingOutline.text : BindingOutline → String
  | .iterator mode function arguments vars =>
    blankList ["iterator", mode.sse, function, blankList arguments, blankList vars]
  | .source document none var => blankList ["source", document, var]
  | .source document (some accept) var =>
    blankList ["source", document, blankList ["accept", accept], var]
  | .bind value var => blankList ["bind", var, value]

def SelectOutline.text (outline : SelectOutline) : String :=
  blankList ("select" :: ((if outline.isSelect then ["select"] else [])
    ++ [blankList outline.parameters, outline.query]))

def PatternOutline.text (outline : PatternOutline) : String :=
  blankList ["triple", outline.subject, outline.predicate, outline.object]

/-- How a plan is marked as that of a whole query or of a part. -/
def topMark (isTop : Bool) : String :=
  if isTop then "top" else "nested"

mutual

def PlanOutline.text : PlanOutline → String
  | ⟨isTop, bindings, select, output⟩ =>
    blankList ("root" :: topMark isTop
      :: blankList ("bindings" :: bindings.map BindingOutline.text) :: select.text
      :: OutputOutline.textEach output)

/-- The S-expression of the output, if there is one. -/
def OutputOutline.textEach : Option OutputOutline → List String
  | none => []
  | some output => [output.text]

def OutputOutline.text : OutputOutline → String
  | .call name parameters => blankList ["call", name, blankList parameters]
  | .template elements => blankList ("generate" :: PlanElementOutline.textEach elements)

def PlanElementOutline.text : PlanElementOutline → String
  | .triples triples => blankList ("triples" :: triples.map PatternOutline.text)
  | .plan plan => plan.text

def PlanElementOutline.textEach : List PlanElementOutline → List String
  | [] => []
  | element :: rest => element.text :: PlanElementOutline.textEach rest

end

theorem OutputOutline.textEach_eq_map (output : Option OutputOutline) :
    textEach output = output.toList.map text := by
  cases output <;> rfl

theorem PlanElementOutline.textEach_eq_map (elements : List PlanElementOutline) :
    textEach elements = elements.map text := by
  induction elements with
  | nil => rfl
  | cons element rest ih => rw [textEach, ih, List.map_cons]

/-! ## The outline of a plan -/

namespace Spelling

variable (w : Spelling)

def bindingOutline : Binding → BindingOutline
  | .iterator mode function arguments vars =>
    .iterator mode (w.iri function) (arguments.map w.expr) (vars.map w.var)
  | .source document accept var => .source (w.name document) (accept.map w.name) (w.var var)
  | .bind value var => .bind (w.expr value) (w.var var)

def selectOutline (plan : SelectPlan) : SelectOutline :=
  ⟨plan.isSelect, plan.parameters.map w.var, w.select plan.query⟩

def patternOutline (triple : TriplePattern) : PatternOutline :=
  ⟨w.term triple.subject, w.name triple.predicate, w.term triple.object⟩

mutual

/-- What the S-expression of the plan tells of it. -/
def planOutline : Plan → PlanOutline
  | ⟨_, bindings, select, output, isTop⟩ =>
    ⟨isTop, bindings.map w.bindingOutline, w.selectOutline select, outputOutlineIn output⟩

/-- The outline of the output, if there is one. -/
def outputOutlineIn : Option Output → Option OutputOutline
  | none => none
  | some output => some (outputOutline output)

def outputOutline : Output → OutputOutline
  | .call ⟨_, name, parameters⟩ => .call (w.name name) (parameters.map w.expr)
  | .template elements => .template (planElementOutlines elements)

def planElementOutline : PlanElement → PlanElementOutline
  | .triples triples => .triples (triples.map w.patternOutline)
  | .plan plan => .plan (planOutline plan)

def planElementOutlines : List PlanElement → List PlanElementOutline
  | [] => []
  | element :: rest => planElementOutline element :: planElementOutlines rest

end

theorem text_bindingOutline (binding : Binding) :
    (w.bindingOutline binding).text = w.binding binding := by
  cases binding with
  | iterator | bind => rfl
  | source document accept var => cases accept <;> rfl

mutual

/-- The outline of a plan has the S-expression of the plan. -/
theorem text_planOutline : (plan : Plan) → (w.planOutline plan).text = w.plan plan
  | ⟨source, bindings, select, output, isTop⟩ => by
    have hbindings : (bindings.map w.bindingOutline).map BindingOutline.text =
        bindings.map w.binding := by
      simp [text_bindingOutline]
    rw [planOutline, PlanOutline.text, hbindings, textEach_outputOutlineIn output]
    rfl

theorem textEach_outputOutlineIn : (output : Option Output) →
    OutputOutline.textEach (w.outputOutlineIn output) = w.outputEach output
  | none => rfl
  | some output => by
    rw [outputOutlineIn, OutputOutline.textEach, text_outputOutline output]
    rfl

theorem text_outputOutline : (output : Output) → (w.outputOutline output).text = w.output output
  | .call call => rfl
  | .template elements => by
    rw [outputOutline, OutputOutline.text, textEach_planElementOutlines elements]
    rfl

theorem text_planElementOutline : (element : PlanElement) →
    (w.planElementOutline element).text = w.planElement element
  | .triples triples => by
    rw [planElementOutline, PlanElementOutline.text, List.map_map]
    rfl
  | .plan plan => text_planOutline plan

theorem textEach_planElementOutlines : (elements : List PlanElement) →
    PlanElementOutline.textEach (w.planElementOutlines elements) = w.planElementEach elements
  | [] => rfl
  | element :: rest => by
    rw [planElementOutlines, PlanElementOutline.textEach, text_planElementOutline element,
      textEach_planElementOutlines rest]
    rfl

end

end Spelling

/-! ## Vocabularies -/

/-- The parts of plain SPARQL that a plan has texts of. -/
inductive Part where
  | term
  | var
  | expr
  | select
  deriving DecidableEq, Repr

/-- The texts that may stand for the parts. -/
abbrev Vocabulary := Part → String → Prop

/-- What may be written next after the text of a part. -/
def Part.followers : List String := [" ", ")"]

/-- Each text can be told from what follows it, and what stands in lists does not look like the end
of a list. Variables also have to differ from a nested list, the media type of a source. -/
structure Vocabulary.Legible (V : Vocabulary) : Prop where
  var : ∀ text, V .var text → StartsWith ["?"] text.toList
  expr : ∀ text, V .expr text → text ≠ "" ∧ ¬ StartsWith [")"] text.toList
  delimited : ∀ part first second, V part first → V part second →
    ∀ next ∈ Part.followers, ∀ other ∈ Part.followers, ∀ rest further : String,
      first ++ next ++ rest = second ++ other ++ further → first = second

section Within

variable (V : Vocabulary)

def BindingOutline.Within : BindingOutline → Prop
  | .iterator _ function arguments vars =>
    V .term function ∧ (∀ text ∈ arguments, V .expr text) ∧ ∀ text ∈ vars, V .var text
  | .source document accept var =>
    V .term document ∧ (∀ text ∈ accept, V .term text) ∧ V .var var
  | .bind value var => V .expr value ∧ V .var var

def SelectOutline.Within (outline : SelectOutline) : Prop :=
  (∀ text ∈ outline.parameters, V .var text) ∧ V .select outline.query

def PatternOutline.Within (outline : PatternOutline) : Prop :=
  V .term outline.subject ∧ V .term outline.predicate ∧ V .term outline.object

mutual

/-- All texts of parts in the outline are from the vocabulary. -/
def PlanOutline.Within : PlanOutline → Prop
  | ⟨_, bindings, select, output⟩ =>
    (∀ binding ∈ bindings, binding.Within V) ∧ select.Within V ∧ OutputOutline.WithinIn output

def OutputOutline.WithinIn : Option OutputOutline → Prop
  | none => True
  | some output => output.Within

def OutputOutline.Within : OutputOutline → Prop
  | .call name parameters => V .term name ∧ ∀ text ∈ parameters, V .expr text
  | .template elements => PlanElementOutline.WithinEach elements

def PlanElementOutline.Within : PlanElementOutline → Prop
  | .triples triples => ∀ triple ∈ triples, triple.Within V
  | .plan plan => plan.Within

def PlanElementOutline.WithinEach : List PlanElementOutline → Prop
  | [] => True
  | element :: rest => element.Within ∧ PlanElementOutline.WithinEach rest

end

variable {V}

theorem OutputOutline.withinIn_iff {output : Option OutputOutline} :
    WithinIn V output ↔ ∀ form ∈ output.toList, form.Within V := by
  cases output <;> simp [WithinIn]

theorem PlanElementOutline.withinEach_iff {elements : List PlanElementOutline} :
    WithinEach V elements ↔ ∀ element ∈ elements, element.Within V := by
  induction elements with
  | nil => simp [WithinEach]
  | cons element rest ih => rw [WithinEach, ih, List.forall_mem_cons]

end Within

/-! ## The vocabulary of a spelling -/

namespace Spelling

variable (w : Spelling)

/-- All texts that the spelling has for the parts. -/
def vocabulary : Vocabulary
  | .term, text => ∃ t, w.term t = text
  | .var, text => ∃ v, w.var v = text
  | .expr, text => ∃ e, w.expr e = text
  | .select, text => ∃ query, w.select query = text

theorem vocabulary_vars (vars : List Var) :
    ∀ text ∈ vars.map w.var, w.vocabulary .var text := by
  intro text htext
  obtain ⟨v, -, rfl⟩ := List.mem_map.mp htext
  exact ⟨v, rfl⟩

theorem vocabulary_exprs (values : List Expr) :
    ∀ text ∈ values.map w.expr, w.vocabulary .expr text := by
  intro text htext
  obtain ⟨e, -, rfl⟩ := List.mem_map.mp htext
  exact ⟨e, rfl⟩

theorem within_bindingOutline (binding : Binding) :
    (w.bindingOutline binding).Within w.vocabulary := by
  cases binding with
  | iterator mode function arguments vars =>
      exact ⟨⟨.iri function, rfl⟩, w.vocabulary_exprs arguments, w.vocabulary_vars vars⟩
  | source document accept var =>
      refine ⟨⟨document.toTerm, rfl⟩, ?_, ⟨var, rfl⟩⟩
      intro text htext
      obtain ⟨name, -, rfl⟩ := Option.map_eq_some_iff.mp htext
      exact ⟨name.toTerm, rfl⟩
  | bind value var => exact ⟨⟨value, rfl⟩, ⟨var, rfl⟩⟩

theorem within_patternOutline (triple : TriplePattern) :
    (w.patternOutline triple).Within w.vocabulary :=
  ⟨⟨triple.subject, rfl⟩, ⟨triple.predicate.toTerm, rfl⟩, ⟨triple.object, rfl⟩⟩

mutual

/-- Every plan is shown with the texts of the spelling. -/
theorem within_planOutline : (plan : Plan) → (w.planOutline plan).Within w.vocabulary
  | ⟨source, bindings, select, output, isTop⟩ => by
    rw [planOutline, PlanOutline.Within]
    refine ⟨?_, ⟨w.vocabulary_vars select.parameters, ⟨select.query, rfl⟩⟩,
      within_outputOutlineIn output⟩
    intro outline houtline
    obtain ⟨binding, -, rfl⟩ := List.mem_map.mp houtline
    exact w.within_bindingOutline binding

theorem within_outputOutlineIn : (output : Option Output) →
    OutputOutline.WithinIn w.vocabulary (w.outputOutlineIn output)
  | none => trivial
  | some output => within_outputOutline output

theorem within_outputOutline : (output : Output) → (w.outputOutline output).Within w.vocabulary
  | .call ⟨_, name, parameters⟩ => ⟨⟨name.toTerm, rfl⟩, w.vocabulary_exprs parameters⟩
  | .template elements => within_planElementOutlines elements

theorem within_planElementOutline : (element : PlanElement) →
    (w.planElementOutline element).Within w.vocabulary
  | .triples triples => by
    intro outline houtline
    obtain ⟨triple, -, rfl⟩ := List.mem_map.mp houtline
    exact w.within_patternOutline triple
  | .plan plan => within_planOutline plan

theorem within_planElementOutlines : (elements : List PlanElement) →
    PlanElementOutline.WithinEach w.vocabulary (w.planElementOutlines elements)
  | [] => trivial
  | element :: rest => ⟨within_planElementOutline element, within_planElementOutlines rest⟩

end

end Spelling

end SparqlGenerate
