import SparqlGenerate.Proofs.UniqueReading

/-!
# Queries with the same text

The text of a query with its base is the line of the base, if there is one, and the printed outline.
So two queries of a legible lexicon have the same text just if they have the same base and the same
outline: what the outline leaves out is lost in the text, and nothing else is.
-/

namespace SparqlGenerate

/-! ## Stops -/

/-- Texts without stops that are each followed by a stop are equal if the wholes are. -/
theorem eq_of_stop (stop : Char → Prop) {first second : List Char}
    (hfirst : ∀ c ∈ first, ¬ stop c) (hsecond : ∀ c ∈ second, ¬ stop c) {x y : Char}
    (hx : stop x) (hy : stop y) {rest further : List Char}
    (h : first ++ x :: rest = second ++ y :: further) : first = second := by
  induction first generalizing second with
  | nil =>
      cases second with
      | nil => rfl
      | cons d second =>
          obtain ⟨rfl, -⟩ := List.cons.inj h
          exact absurd hx (hsecond x List.mem_cons_self)
  | cons c first ih =>
      cases second with
      | nil =>
          obtain ⟨rfl, -⟩ := List.cons.inj h
          exact absurd hy (hfirst c List.mem_cons_self)
      | cons d second =>
          obtain ⟨rfl, htail⟩ := List.cons.inj h
          obtain ⟨-, hfirst⟩ := List.forall_mem_cons.mp hfirst
          obtain ⟨-, hsecond⟩ := List.forall_mem_cons.mp hsecond
          rw [ih hfirst hsecond htail]

/-! ## Bases -/

theorem ahead_baseText_some (base : Iri) (rest : List Char) :
    ahead (baseText (some base)) rest =
      ahead "BASE <" (base.value.toList ++ '>' :: ahead "\n" rest) := by
  simp [baseText, Iri.text, ahead]

theorem Outline.ne_of_base (outline : Outline) (base : Iri) (rest further : List Char) :
    outline.print rest ≠ ahead (baseText (some base)) further := by
  intro h
  have hkeyword := congrArg List.head? h
  obtain ⟨form, dataset, clauses, pattern⟩ := outline
  rw [Outline.print, FormOutline.head?_print, ahead_baseText_some] at hkeyword
  cases form <;> simp [ahead] at hkeyword

/-- The line of the base is read back, if the base does not close its bracket itself. -/
theorem eq_of_base {first second : Option Iri}
    (hfirst : ∀ base ∈ first, '>' ∉ base.value.toList)
    (hsecond : ∀ base ∈ second, '>' ∉ base.value.toList) {outline other : Outline}
    {rest further : List Char}
    (h : ahead (baseText first) (outline.print rest) =
      ahead (baseText second) (other.print further)) :
    first = second ∧ outline.print rest = other.print further := by
  cases first with
  | none =>
      rw [baseText, ahead_empty] at h
      cases second with
      | none => exact ⟨rfl, by rwa [baseText, ahead_empty] at h⟩
      | some base => exact absurd h (outline.ne_of_base base _ _)
  | some base =>
      cases second with
      | none =>
          rw [baseText, ahead_empty] at h
          exact absurd h.symm (other.ne_of_base base _ _)
      | some base' =>
          have hbase : base = base' := by
            rw [ahead_baseText_some, ahead_baseText_some] at h
            have hvalue := eq_of_stop (· = '>') (fun c hc hstop => hfirst base rfl (hstop ▸ hc))
              (fun c hc hstop => hsecond base' rfl (hstop ▸ hc)) rfl rfl (ahead_injective h)
            obtain ⟨value⟩ := base
            exact congrArg Iri.mk (String.toList_inj.mp hvalue)
          subst hbase
          exact ⟨rfl, ahead_injective h⟩

/-! ## Texts -/

theorem toList_query (w : Spelling) (query : Query) :
    (w.query query).toList = ahead (baseText query.base) ((w.outline query).print []) := by
  rw [← ahead_nil, Spelling.query, ahead_append, w.ahead_body]

/-- Where the texts of the parts are legible, two queries have the same text if and only if they
have the same base and the same outline. All texts of a spelling make up a lexicon that no query
falls outside of. -/
theorem text_tells_outline (w : Spelling) :
    (∀ query, (w.outline query).Within w.lexicon) ∧
    ∀ L : Lexicon, L.Legible → ∀ first second : Query,
      (w.outline first).Within L → (w.outline second).Within L →
      (∀ base ∈ first.base, '>' ∉ base.value.toList) →
      (∀ base ∈ second.base, '>' ∉ base.value.toList) →
      (w.query first = w.query second ↔
        first.base = second.base ∧ w.outline first = w.outline second) := by
  refine ⟨w.within_outline, ?_⟩
  intro L hL first second hfirst hsecond hbase hbase'
  rw [← String.toList_inj, toList_query, toList_query]
  constructor
  · intro h
    obtain ⟨hsame, hprint⟩ := eq_of_base hbase hbase' h
    obtain ⟨houtline, -⟩ := Outline.eq_of_print hL _ _ hfirst hsecond [] [] hprint
    exact ⟨hsame, houtline⟩
  · rintro ⟨hsame, houtline⟩
    rw [hsame, houtline]

/-! ## Words -/

/-- The characters that the text of a part may be followed by. -/
def IsStop (c : Char) : Prop :=
  c ∈ [' ', '(', ')', ',', '\n']

instance (c : Char) : Decidable (IsStop c) :=
  inferInstanceAs (Decidable (c ∈ [' ', '(', ')', ',', '\n']))

/-- The terms, variables and expressions that are written as one word, the patterns without a
closing brace, and the datasets that stand on one line. -/
def Lexicon.words : Lexicon where
  term text := StartsWith ["<", "?", "_:", "\""] text.toList ∧ ∀ c ∈ text.toList, ¬ IsStop c
  var text := StartsWith ["?"] text.toList ∧ ∀ c ∈ text.toList, ¬ IsStop c
  expr text := text ≠ "" ∧ ∀ c ∈ text.toList, ¬ IsStop c
  pattern text := '\x7d' ∉ text.toList
  dataset text := StartsWith [" FROM "] text.toList ∧ '\n' ∉ text.toList

/-- In every place the layout goes on with a stop. -/
theorem Slot.exists_stop {slot : Slot} {next : String} (h : next ∈ slot.followers) :
    ∃ c tail, next.toList = c :: tail ∧ IsStop c := by
  have hstops : ∀ next ∈ slot.followers, next.toList.head?.any (IsStop ·) := by
    cases slot <;> decide
  have hstop := hstops next h
  cases hchars : next.toList with
  | nil => simp [hchars] at hstop
  | cons c tail => exact ⟨c, tail, rfl, by simpa [hchars] using hstop⟩

namespace Lexicon

theorem not_isStop_of_fits {slot : Slot} (hpattern : slot ≠ .pattern) (hdataset : slot ≠ .dataset)
    {text : String} (h : words.Fits slot text) : ∀ c ∈ text.toList, ¬ IsStop c := by
  cases slot with
  | pattern => exact absurd rfl hpattern
  | dataset => exact absurd rfl hdataset
  | parameter => exact h.elim And.right And.right
  | _ => exact h.2

theorem ne_brace_of_fits {text : String} (h : words.Fits .pattern text) :
    ∀ c ∈ text.toList ++ [' '], ¬ c = '\x7d' := by
  rintro c hc rfl
  rcases List.mem_append.mp hc with hc | hc
  · exact h hc
  · simp at hc

theorem words_legible : words.Legible where
  term _ h := h.1
  var _ h := h.1
  expr text h := by
    refine ⟨h.1, ?_⟩
    rintro ⟨opening, hopening, tail, htail⟩
    obtain rfl := List.mem_singleton.mp hopening
    exact h.2 ')' (htail ▸ List.mem_cons_self) (by decide)
  dataset _ h := Or.inr h.1
  delimited slot first second hfirst hsecond next hnext other hother rest further h := by
    replace h := String.toList_inj.mpr h
    simp only [String.toList_append, List.append_assoc] at h
    apply String.toList_inj.mp
    by_cases hpattern : slot = .pattern
    · subst hpattern
      obtain rfl := List.mem_singleton.mp hnext
      obtain rfl := List.mem_singleton.mp hother
      -- The stop is the brace, and the blank before it belongs to both texts.
      have hblank : first.toList ++ [' '] = second.toList ++ [' '] :=
        eq_of_stop (· = '\x7d') (ne_brace_of_fits hfirst) (ne_brace_of_fits hsecond) rfl rfl
          (by simpa using h)
      exact List.append_cancel_right hblank
    · by_cases hdataset : slot = .dataset
      · subst hdataset
        obtain rfl := List.mem_singleton.mp hnext
        obtain rfl := List.mem_singleton.mp hother
        refine eq_of_stop (· = '\n') (fun c hc hstop => hfirst.2 (hstop ▸ hc))
          (fun c hc hstop => hsecond.2 (hstop ▸ hc)) rfl rfl h
      · obtain ⟨c, tail, hc, hstop⟩ := Slot.exists_stop hnext
        obtain ⟨d, last, hd, hlast⟩ := Slot.exists_stop hother
        rw [hc, hd] at h
        exact eq_of_stop IsStop (not_isStop_of_fits hpattern hdataset hfirst)
          (not_isStop_of_fits hpattern hdataset hsecond) hstop hlast h

end Lexicon

/-! ## An example -/

/-- The triple that repeats a variable, the last time as an expression. -/
def repeatedTriple : TemplateTriple :=
  ⟨.term (.var ⟨"s"⟩), .term (.var ⟨"s"⟩), .embedded (.var ⟨"s"⟩)⟩

/-- A definition with two blocks of triples before a nested query. -/
def twoBlocks : Query :=
  { Query.generate [.triples [repeatedTriple], .triples [repeatedTriple],
      .query { Query.ofForm .select with base := some ⟨"b"⟩, name := some ⟨"n"⟩ }] with
    base := some ⟨"a"⟩
    name := some ⟨"q"⟩
    signature := some [⟨"s"⟩] }

/-- The definition with a single block, a plainer nested query and an empty dataset. -/
def oneBlock : Query :=
  { twoBlocks with
    form := .generate [.triples [repeatedTriple, repeatedTriple], .query (Query.ofForm .select)]
    dataset := some ⟨[], none⟩ }

/-- The call of the definition, with its own parameter. -/
def blockCall : Query :=
  { twoBlocks with form := .call (.iri ⟨"q"⟩) [.var ⟨"s"⟩] }

theorem text_tells_definition_from_call :
    twoBlocks.text = oneBlock.text ∧ twoBlocks.text ≠ blockCall.text := by
  have hbase : ∀ base ∈ some (Iri.mk "a"), '>' ∉ base.value.toList := by
    rintro _ ⟨⟩
    decide
  have hterm : Lexicon.words.term (Term.text (.var ⟨"s"⟩)) := by
    simp [Lexicon.words, Term.text, Var.text, StartsWith, IsStop]
  have hname : Lexicon.words.term (Term.text (.iri ⟨"q"⟩)) := by
    simp [Lexicon.words, Term.text, Iri.text, StartsWith, IsStop]
  have hvar : Lexicon.words.var (Var.text ⟨"s"⟩) := by
    simp [Lexicon.words, Var.text, StartsWith, IsStop]
  have hexpr : Lexicon.words.expr (Expr.text (.var ⟨"s"⟩)) := by
    simp [Lexicon.words, Expr.text, Var.text, IsStop]
  have hpattern : Lexicon.words.pattern (Pattern.text .unit) := by
    intro hbrace
    cases hbrace
  have htriple : (Spelling.sparql.tripleOutline repeatedTriple).Within Lexicon.words :=
    ⟨hterm, hterm, hexpr⟩
  have hheading : (Spelling.sparql.heading (some ⟨"q"⟩) (some [⟨"s"⟩])).Within Lexicon.words := by
    constructor
    · rintro _ ⟨⟩
      exact hname
    · rintro _ ⟨⟩ text htext
      obtain rfl := List.mem_singleton.mp htext
      exact hvar
  have hselect : (Spelling.sparql.outline (.ofForm .select)).Within Lexicon.words :=
    ⟨trivial, Or.inl rfl, nofun, hpattern⟩
  have htwo : (Spelling.sparql.outline twoBlocks).Within Lexicon.words :=
    ⟨⟨hheading, htriple, htriple, hselect, trivial⟩, Or.inl rfl, nofun, hpattern⟩
  have hone : (Spelling.sparql.outline oneBlock).Within Lexicon.words :=
    ⟨⟨hheading, htriple, htriple, hselect, trivial⟩, Or.inl rfl, nofun, hpattern⟩
  have hcall : (Spelling.sparql.outline blockCall).Within Lexicon.words := by
    refine ⟨⟨hname, ?_⟩, Or.inl rfl, nofun, hpattern⟩
    intro text htext
    obtain rfl := List.mem_singleton.mp htext
    exact hexpr
  obtain ⟨-, htells⟩ := text_tells_outline Spelling.sparql
  have hwords := htells Lexicon.words Lexicon.words_legible
  constructor
  · exact (hwords twoBlocks oneBlock htwo hone hbase hbase).mpr ⟨rfl, rfl⟩
  · intro h
    obtain ⟨-, houtline⟩ := (hwords twoBlocks blockCall htwo hcall hbase hbase).mp h
    cases congrArg Outline.form houtline

end SparqlGenerate
