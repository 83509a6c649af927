import Mathlib.Data.List.Basic
import SparqlGenerate.Proofs.Legibility

/-!
# Reading a query back from its text

Where the texts of the parts are legible, the text of a query determines its outline. The proof
reads two equal texts from the left: the next few characters say which form, clause or piece comes
next, and the text of a part ends where the layout goes on. So each form is read back along with
what follows it, whatever that is.
-/

namespace SparqlGenerate

/-! ## Openings -/

theorem ahead_injective {text : String} {rest further : List Char}
    (h : ahead text rest = ahead text further) : rest = further :=
  List.append_cancel_left h

theorem startsWith_ahead {openings : List String} {opening : String} (h : opening ∈ openings)
    (rest : List Char) : StartsWith openings (ahead opening rest) :=
  ⟨opening, h, List.prefix_append opening.toList rest⟩

theorem startsWith_self (opening : String) (rest : List Char) :
    StartsWith [opening] (ahead opening rest) :=
  startsWith_ahead List.mem_cons_self rest

theorem StartsWith.ahead {openings : List String} {text : String}
    (h : StartsWith openings text.toList) (rest : List Char) :
    StartsWith openings (ahead text rest) := by
  obtain ⟨opening, hopening, hprefix⟩ := h
  exact ⟨opening, hopening, hprefix.trans (List.prefix_append text.toList rest)⟩

theorem StartsWith.mono {openings more : List String} {chars : List Char}
    (h : StartsWith openings chars) (hsubset : openings ⊆ more) : StartsWith more chars := by
  obtain ⟨opening, hopening, hprefix⟩ := h
  exact ⟨opening, hsubset hopening, hprefix⟩

/-- What follows a text of a list is the lead of the next one, or the end of the list. -/
theorem startsWith_aheadEach {followers : List String} {lead tail : String}
    (hlead : lead ∈ followers) (htail : tail ∈ followers) (texts : List String)
    {rest : List Char} (hrest : StartsWith [tail] rest) :
    StartsWith followers (aheadEach lead texts rest) := by
  cases texts with
  | nil => exact hrest.mono (List.cons_subset.mpr ⟨htail, List.nil_subset followers⟩)
  | cons text more => exact startsWith_ahead hlead _

/-- What starts as a variable does not start with a parenthesis. -/
theorem StartsWith.not_paren {chars : List Char} (h : StartsWith ["?"] chars) :
    ¬ StartsWith ["("] chars ∧ ¬ StartsWith [")"] chars := by
  obtain ⟨opening, hopening, tail, rfl⟩ := h
  obtain rfl := List.mem_singleton.mp hopening
  simp [StartsWith]

/-- A text that is not empty hides what follows it. -/
theorem not_startsWith_close {text : String} (hne : text ≠ "")
    (hstart : ¬ StartsWith [")"] text.toList) (rest : List Char) :
    ¬ StartsWith [")"] (ahead text rest) := by
  unfold SparqlGenerate.ahead
  cases hchars : text.toList with
  | nil => exact absurd (String.toList_eq_nil_iff.mp hchars) hne
  | cons c chars =>
      rw [hchars] at hstart
      simpa [StartsWith] using hstart

/-- Texts that can be told from what may follow them are read back up to there. -/
theorem eq_of_ahead_of_followers {followers : List String} {first second : String}
    (hdelimited : ∀ next ∈ followers, ∀ other ∈ followers, ∀ rest further : String,
      first ++ next ++ rest = second ++ other ++ further → first = second)
    {rest further : List Char} (hrest : StartsWith followers rest)
    (hfurther : StartsWith followers further) (h : ahead first rest = ahead second further) :
    first = second ∧ rest = further := by
  obtain ⟨next, hnext, tail, rfl⟩ := hrest
  obtain ⟨other, hother, last, rfl⟩ := hfurther
  have hsame : first = second := by
    apply hdelimited next hnext other hother (String.ofList tail) (String.ofList last)
    apply String.toList_inj.mp
    simpa [ahead] using h
  subst hsame
  exact ⟨rfl, ahead_injective h⟩

namespace Lexicon.Legible

variable {L : Lexicon} (hL : L.Legible)

include hL

/-- The text in a place is read back up to what follows it. -/
theorem eq_of_ahead (slot : Slot) {first second : String} (hfirst : L.Fits slot first)
    (hsecond : L.Fits slot second) {rest further : List Char}
    (hrest : StartsWith slot.followers rest) (hfurther : StartsWith slot.followers further)
    (h : ahead first rest = ahead second further) : first = second ∧ rest = further :=
  eq_of_ahead_of_followers (hL.delimited slot first second hfirst hsecond) hrest hfurther h

/-- The texts of a list are read back up to its end, which does not look like one more text. -/
theorem eq_of_aheadEach (slot : Slot) {lead tail : String} (hlead : lead ∈ slot.followers)
    (htail : tail ∈ slot.followers) (hends : ∀ rest, ¬ StartsWith [tail] (ahead lead rest))
    {first second : List String} (hfirst : ∀ text ∈ first, L.Fits slot text)
    (hsecond : ∀ text ∈ second, L.Fits slot text) {rest further : List Char}
    (hrest : StartsWith [tail] rest) (hfurther : StartsWith [tail] further)
    (h : aheadEach lead first rest = aheadEach lead second further) :
    first = second ∧ rest = further := by
  induction first generalizing second with
  | nil =>
      cases second with
      | nil => exact ⟨rfl, h⟩
      | cons other others =>
          rw [aheadEach, aheadEach] at h
          exact absurd (h ▸ hrest) (hends _)
  | cons text more ih =>
      cases second with
      | nil =>
          rw [aheadEach, aheadEach] at h
          exact absurd (h ▸ hfurther) (hends _)
      | cons other others =>
          obtain ⟨htext, hmore⟩ := List.forall_mem_cons.mp hfirst
          obtain ⟨hother, hothers⟩ := List.forall_mem_cons.mp hsecond
          obtain ⟨rfl, htails⟩ := hL.eq_of_ahead slot htext hother
            (startsWith_aheadEach hlead htail more hrest)
            (startsWith_aheadEach hlead htail others hfurther) (ahead_injective h)
          obtain ⟨rfl, rfl⟩ := ih hmore hothers htails
          exact ⟨rfl, rfl⟩

/-! ## Lists and headings -/

/-- A parameter does not look like the end of the list. -/
theorem not_startsWith_parameter {text : String} (h : L.Fits .parameter text)
    (rest : List Char) : ¬ StartsWith [")"] (ahead text rest) := by
  rcases h with hvar | hexpr
  · exact ((hL.var text hvar).ahead rest).not_paren.2
  · obtain ⟨hne, hstart⟩ := hL.expr text hexpr
    exact not_startsWith_close hne hstart rest

theorem eq_of_aheadList {first second : List String}
    (hfirst : ∀ text ∈ first, L.Fits .parameter text)
    (hsecond : ∀ text ∈ second, L.Fits .parameter text) {rest further : List Char}
    (h : aheadList first rest = aheadList second further) : first = second ∧ rest = further := by
  cases first with
  | nil =>
      cases second with
      | nil => exact ⟨rfl, ahead_injective (ahead_injective h)⟩
      | cons other others =>
          have hother := hL.not_startsWith_parameter (hsecond other List.mem_cons_self)
          rw [aheadList, aheadList] at h
          exact absurd (ahead_injective h ▸ startsWith_self ")" rest) (hother _)
  | cons text more =>
      cases second with
      | nil =>
          have htext := hL.not_startsWith_parameter (hfirst text List.mem_cons_self)
          rw [aheadList, aheadList] at h
          exact absurd (ahead_injective h ▸ startsWith_self ")" further) (htext _)
      | cons other others =>
          obtain ⟨htext, hmore⟩ := List.forall_mem_cons.mp hfirst
          obtain ⟨hother, hothers⟩ := List.forall_mem_cons.mp hsecond
          have hlead : ", " ∈ Slot.parameter.followers := by simp [Slot.followers]
          have htail : ")" ∈ Slot.parameter.followers := by simp [Slot.followers]
          have hends : ∀ rest, ¬ StartsWith [")"] (ahead ", " rest) := by
            simp [StartsWith, SparqlGenerate.ahead]
          have hrest := startsWith_self ")" rest
          have hfurther := startsWith_self ")" further
          obtain ⟨rfl, htails⟩ := hL.eq_of_ahead .parameter htext hother
            (startsWith_aheadEach hlead htail more hrest)
            (startsWith_aheadEach hlead htail others hfurther) (ahead_injective h)
          obtain ⟨rfl, hlast⟩ := hL.eq_of_aheadEach .parameter hlead htail hends hmore hothers
            hrest hfurther htails
          exact ⟨rfl, ahead_injective hlast⟩

end Lexicon.Legible

/-- The texts of the heading may stand in it, as those of a definition or of a call. -/
structure Heading.Fits (L : Lexicon) (heading : Heading) : Prop where
  name : ∀ text ∈ heading.name, L.Fits .name text
  parameters : ∀ texts ∈ heading.signature, ∀ text ∈ texts, L.Fits .parameter text

theorem Heading.Within.fits {L : Lexicon} {heading : Heading} (h : heading.Within L) :
    heading.Fits L :=
  ⟨h.1, fun texts htexts text htext => Or.inl (h.2 texts htexts text htext)⟩

/-- What may follow a signature or a list of parameters: the template in braces, or else, after the
parameters of a call, the dataset and the lines below. -/
def EndsHeading (signature : Option (List String)) (rest : List Char) : Prop :=
  StartsWith [" \x7b"] rest ∨ signature ≠ none ∧ StartsWith ["\n", " FROM "] rest

theorem startsWith_aheadList (texts : List String) (rest : List Char) :
    StartsWith ["("] (aheadList texts rest) := by
  cases texts with
  | nil => exact startsWith_self "(" _
  | cons text more => exact startsWith_self "(" _

theorem EndsHeading.not_startsWith_list {signature : Option (List String)} {rest : List Char}
    (h : EndsHeading signature rest) : ¬ StartsWith ["("] rest := by
  rcases h with ⟨opening, hopening, tail, rfl⟩ | ⟨-, opening, hopening, tail, rfl⟩
  · obtain rfl := List.mem_singleton.mp hopening
    simp [StartsWith]
  · rcases List.mem_pair.mp hopening with rfl | rfl <;> simp [StartsWith]

theorem EndsHeading.startsWith_name {signature : Option (List String)} {rest : List Char}
    (h : EndsHeading signature rest) :
    StartsWith Slot.name.followers (printSignature signature rest) := by
  cases signature with
  | none =>
      have hbrace : StartsWith [" \x7b"] rest := h.resolve_right fun h => h.1 rfl
      exact hbrace.mono (by simp [Slot.followers])
  | some texts => exact (startsWith_aheadList texts rest).mono (by simp [Slot.followers])

namespace Lexicon.Legible

variable {L : Lexicon} (hL : L.Legible)

include hL

theorem eq_of_printSignature {first second : Option (List String)}
    (hfirst : ∀ texts ∈ first, ∀ text ∈ texts, L.Fits .parameter text)
    (hsecond : ∀ texts ∈ second, ∀ text ∈ texts, L.Fits .parameter text)
    {rest further : List Char} (hrest : ¬ StartsWith ["("] rest)
    (hfurther : ¬ StartsWith ["("] further)
    (h : printSignature first rest = printSignature second further) :
    first = second ∧ rest = further := by
  cases first with
  | none =>
      cases second with
      | none => exact ⟨rfl, h⟩
      | some others =>
          rw [printSignature, printSignature] at h
          exact absurd (h ▸ startsWith_aheadList others further) hrest
  | some texts =>
      cases second with
      | none =>
          rw [printSignature, printSignature] at h
          exact absurd (h ▸ startsWith_aheadList texts rest) hfurther
      | some others =>
          obtain ⟨rfl, htails⟩ := hL.eq_of_aheadList (hfirst texts rfl) (hsecond others rfl) h
          exact ⟨rfl, htails⟩

theorem not_startsWith_term {text : String} (h : L.term text) (rest : List Char) :
    ¬ StartsWith ["\x7b"] (ahead text rest) := by
  obtain ⟨opening, hopening, tail, htail⟩ := hL.term text h
  rw [SparqlGenerate.ahead, ← htail]
  simp only [List.mem_cons, List.not_mem_nil, or_false] at hopening
  rcases hopening with rfl | rfl | rfl | rfl <;> simp [StartsWith]

/-- A heading without a name does not look like one with a name. -/
theorem printSignature_ne_named {name : String} (hname : L.term name)
    {signature : Option (List String)} {rest : List Char} (hrest : EndsHeading signature rest)
    (further : List Char) : printSignature signature rest ≠ ahead " " (ahead name further) := by
  intro h
  cases signature with
  | none =>
      obtain ⟨opening, hopening, tail, rfl⟩ := hrest.resolve_right fun h => h.1 rfl
      obtain rfl := List.mem_singleton.mp hopening
      have hbrace : ahead "\x7b" tail = ahead name further := List.cons.inj h |>.2
      exact hL.not_startsWith_term hname further (hbrace ▸ startsWith_self "\x7b" tail)
  | some texts =>
      have hlist := startsWith_aheadList texts rest
      rw [printSignature] at h
      rw [h] at hlist
      simp [StartsWith, SparqlGenerate.ahead] at hlist

theorem eq_of_heading {first second : Heading} (hfirst : first.Fits L) (hsecond : second.Fits L)
    {rest further : List Char} (hrest : EndsHeading first.signature rest)
    (hfurther : EndsHeading second.signature further)
    (h : first.print rest = second.print further) : first = second ∧ rest = further := by
  obtain ⟨name, signature⟩ := first
  obtain ⟨other, parameters⟩ := second
  cases name with
  | none =>
      cases other with
      | none =>
          obtain ⟨rfl, rfl⟩ := hL.eq_of_printSignature hfirst.parameters hsecond.parameters
            hrest.not_startsWith_list hfurther.not_startsWith_list h
          exact ⟨rfl, rfl⟩
      | some other => exact absurd h (hL.printSignature_ne_named (hsecond.name other rfl) hrest _)
  | some name =>
      cases other with
      | none =>
          exact absurd h.symm (hL.printSignature_ne_named (hfirst.name name rfl) hfurther _)
      | some other =>
          obtain ⟨rfl, htails⟩ := hL.eq_of_ahead .name (hfirst.name name rfl)
            (hsecond.name other rfl) hrest.startsWith_name hfurther.startsWith_name
            (ahead_injective h)
          obtain ⟨rfl, rfl⟩ := hL.eq_of_printSignature hfirst.parameters hsecond.parameters
            hrest.not_startsWith_list hfurther.not_startsWith_list htails
          exact ⟨rfl, rfl⟩

/-! ## Triples -/

theorem eq_of_term (slot : Slot) (hslot : ∀ text, L.term text → L.Fits slot text)
    {first second : TermOutline} (hfirst : first.Within L) (hsecond : second.Within L)
    {rest further : List Char} (hrest : StartsWith slot.followers rest)
    (hfurther : StartsWith slot.followers further)
    (h : first.print rest = second.print further) : first = second ∧ rest = further := by
  have hbrace : ∀ rest, StartsWith ["\x7b"] (ahead "\x7b " rest) := by
    simp [StartsWith, SparqlGenerate.ahead]
  cases first with
  | term text =>
      cases second with
      | term other =>
          obtain ⟨rfl, rfl⟩ := hL.eq_of_ahead slot (hslot text hfirst) (hslot other hsecond)
            hrest hfurther h
          exact ⟨rfl, rfl⟩
      | embedded other =>
          rw [TermOutline.print, TermOutline.print] at h
          exact absurd (h ▸ hbrace _) (hL.not_startsWith_term hfirst rest)
  | embedded text =>
      cases second with
      | term other =>
          rw [TermOutline.print, TermOutline.print] at h
          exact absurd (h ▸ hbrace _) (hL.not_startsWith_term hsecond further)
      | embedded other =>
          obtain ⟨rfl, htails⟩ := hL.eq_of_ahead .embedded hfirst hsecond
            (startsWith_self _ _) (startsWith_self _ _) (ahead_injective h)
          exact ⟨rfl, ahead_injective htails⟩

theorem eq_of_triple {first second : TripleOutline} (hfirst : first.Within L)
    (hsecond : second.Within L) {rest further : List Char}
    (h : first.print rest = second.print further) : first = second ∧ rest = further := by
  obtain ⟨subject, predicate, object⟩ := first
  obtain ⟨subject', predicate', object'⟩ := second
  obtain ⟨hsubject, hpredicate, hobject⟩ := hfirst
  obtain ⟨hsubject', hpredicate', hobject'⟩ := hsecond
  obtain ⟨rfl, hafter⟩ := hL.eq_of_term .subject (fun _ h => h) hsubject hsubject'
    (startsWith_self _ _) (startsWith_self _ _) h
  obtain ⟨rfl, hlast⟩ := hL.eq_of_term .subject (fun _ h => h) hpredicate hpredicate'
    (startsWith_self _ _) (startsWith_self _ _) (ahead_injective hafter)
  obtain ⟨rfl, hdone⟩ := hL.eq_of_term .object (fun _ h => h) hobject hobject'
    (startsWith_self _ _) (startsWith_self _ _) (ahead_injective hlast)
  exact ⟨rfl, ahead_injective hdone⟩

end Lexicon.Legible

/-! ## Clauses -/

/-- The keywords of the clauses start with different letters. -/
theorem ClauseOutline.head?_print (clause : ClauseOutline) (rest : List Char) :
    (clause.print rest).head? = match clause with
      | .iterator .. => some 'I'
      | .source .. => some 'S'
      | .bind .. => some 'B' := by
  cases clause with
  | iterator | bind => rfl
  | source document accept var => cases accept <;> rfl

namespace Lexicon.Legible

variable {L : Lexicon} (hL : L.Legible)

include hL

theorem eq_of_iterator {first second : String} {vars others : List String}
    (hfirst : (ClauseOutline.iterator first vars).Within L)
    (hsecond : (ClauseOutline.iterator second others).Within L) {rest further : List Char}
    (hrest : StartsWith ["\n"] rest) (hfurther : StartsWith ["\n"] further)
    (h : (ClauseOutline.iterator first vars).print rest =
      (ClauseOutline.iterator second others).print further) :
    first = second ∧ vars = others ∧ rest = further := by
  have hends : ∀ rest, ¬ StartsWith ["\n"] (ahead " " rest) := by
    simp [StartsWith, SparqlGenerate.ahead]
  obtain ⟨hvalue, hvars⟩ := hfirst
  obtain ⟨hother, hothers⟩ := hsecond
  obtain ⟨rfl, hlists⟩ := hL.eq_of_ahead .iterated hvalue hother (startsWith_self _ _)
    (startsWith_self _ _) (ahead_injective h)
  obtain ⟨rfl, rfl⟩ := hL.eq_of_aheadEach .iteratorVar (by simp [Slot.followers])
    (by simp [Slot.followers]) hends hvars hothers hrest hfurther (ahead_injective hlists)
  exact ⟨rfl, rfl, rfl⟩

theorem eq_of_source {first second var other : String} {accept media : Option String}
    (hfirst : (ClauseOutline.source first accept var).Within L)
    (hsecond : (ClauseOutline.source second media other).Within L) {rest further : List Char}
    (hrest : StartsWith ["\n"] rest) (hfurther : StartsWith ["\n"] further)
    (h : (ClauseOutline.source first accept var).print rest =
      (ClauseOutline.source second media other).print further) :
    first = second ∧ accept = media ∧ var = other ∧ rest = further := by
  obtain ⟨hdocument, haccept, hvar⟩ := hfirst
  obtain ⟨hdocument', hmedia, hother⟩ := hsecond
  have has : ∀ rest, StartsWith Slot.document.followers (ahead " AS " rest) :=
    startsWith_ahead (by simp [Slot.followers])
  have haccepts : ∀ rest, StartsWith Slot.document.followers (ahead " ACCEPT " rest) :=
    startsWith_ahead (by simp [Slot.followers])
  cases accept with
  | none =>
      cases media with
      | none =>
          obtain ⟨rfl, hafter⟩ := hL.eq_of_ahead .document hdocument hdocument' (has _) (has _)
            (ahead_injective h)
          obtain ⟨rfl, rfl⟩ := hL.eq_of_ahead .sourceVar hvar hother hrest hfurther
            (ahead_injective hafter)
          exact ⟨rfl, rfl, rfl, rfl⟩
      | some media =>
          obtain ⟨rfl, hafter⟩ := hL.eq_of_ahead .document hdocument hdocument' (has _)
            (haccepts _) (ahead_injective h)
          simp [SparqlGenerate.ahead] at hafter
  | some accept =>
      cases media with
      | none =>
          obtain ⟨rfl, hafter⟩ := hL.eq_of_ahead .document hdocument hdocument' (haccepts _)
            (has _) (ahead_injective h)
          simp [SparqlGenerate.ahead] at hafter
      | some media =>
          obtain ⟨rfl, hafter⟩ := hL.eq_of_ahead .document hdocument hdocument' (haccepts _)
            (haccepts _) (ahead_injective h)
          obtain ⟨rfl, hlast⟩ := hL.eq_of_ahead .accept (haccept accept rfl) (hmedia media rfl)
            (startsWith_self _ _) (startsWith_self _ _) (ahead_injective hafter)
          obtain ⟨rfl, rfl⟩ := hL.eq_of_ahead .sourceVar hvar hother hrest hfurther
            (ahead_injective hlast)
          exact ⟨rfl, rfl, rfl, rfl⟩

theorem eq_of_bind {first second var other : String}
    (hfirst : (ClauseOutline.bind first var).Within L)
    (hsecond : (ClauseOutline.bind second other).Within L) {rest further : List Char}
    (h : (ClauseOutline.bind first var).print rest =
      (ClauseOutline.bind second other).print further) :
    first = second ∧ var = other ∧ rest = further := by
  obtain ⟨hvalue, hvar⟩ := hfirst
  obtain ⟨hvalue', hother⟩ := hsecond
  obtain ⟨rfl, hafter⟩ := hL.eq_of_ahead .bound hvalue hvalue' (startsWith_self _ _)
    (startsWith_self _ _) (ahead_injective (ahead_injective h))
  obtain ⟨rfl, hlast⟩ := hL.eq_of_ahead .boundVar hvar hother (startsWith_self _ _)
    (startsWith_self _ _) (ahead_injective hafter)
  exact ⟨rfl, rfl, ahead_injective hlast⟩

theorem eq_of_clause {first second : ClauseOutline} (hfirst : first.Within L)
    (hsecond : second.Within L) {rest further : List Char} (hrest : StartsWith ["\n"] rest)
    (hfurther : StartsWith ["\n"] further) (h : first.print rest = second.print further) :
    first = second ∧ rest = further := by
  have hkeyword := congrArg List.head? h
  rw [ClauseOutline.head?_print, ClauseOutline.head?_print] at hkeyword
  cases first with
  | iterator value vars =>
      cases second with
      | iterator other others =>
          obtain ⟨rfl, rfl, rfl⟩ := hL.eq_of_iterator hfirst hsecond hrest hfurther h
          exact ⟨rfl, rfl⟩
      | source | bind => cases hkeyword
  | source document accept var =>
      cases second with
      | source document' media other =>
          obtain ⟨rfl, rfl, rfl, rfl⟩ := hL.eq_of_source hfirst hsecond hrest hfurther h
          exact ⟨rfl, rfl⟩
      | iterator | bind => cases hkeyword
  | bind value var =>
      cases second with
      | bind value' other =>
          obtain ⟨rfl, rfl, rfl⟩ := hL.eq_of_bind hfirst hsecond h
          exact ⟨rfl, rfl⟩
      | iterator | source => cases hkeyword

end Lexicon.Legible

theorem ClauseOutline.startsWith_printEach (clauses : List ClauseOutline) {rest : List Char}
    (h : StartsWith ["\n"] rest) : StartsWith ["\n"] (printEach clauses rest) := by
  cases clauses with
  | nil => exact h
  | cons clause more => exact startsWith_self "\n" _

/-- No clause starts like the pattern. -/
theorem ClauseOutline.print_ne_where (clause : ClauseOutline) (rest further : List Char) :
    ahead "\nWHERE \x7b " rest ≠ ahead "\n" (clause.print further) := by
  intro h
  have hkeyword := congrArg (fun chars => chars.tail.head?) h
  replace hkeyword : some 'W' = (clause.print further).head? := hkeyword
  rw [head?_print] at hkeyword
  cases clause <;> cases hkeyword

/-- The line of the pattern comes after all others. -/
theorem startsWith_where (rest : List Char) : StartsWith ["\n"] (ahead "\nWHERE \x7b " rest) :=
  startsWith_self "\n" (ahead "WHERE \x7b " rest)

namespace Lexicon.Legible

variable {L : Lexicon} (hL : L.Legible)

include hL

theorem eq_of_clauses {first second : List ClauseOutline}
    (hfirst : ∀ clause ∈ first, clause.Within L) (hsecond : ∀ clause ∈ second, clause.Within L)
    {rest further : List Char}
    (h : ClauseOutline.printEach first (ahead "\nWHERE \x7b " rest) =
      ClauseOutline.printEach second (ahead "\nWHERE \x7b " further)) :
    first = second ∧ rest = further := by
  induction first generalizing second with
  | nil =>
      cases second with
      | nil => exact ⟨rfl, ahead_injective h⟩
      | cons other others => exact absurd h (other.print_ne_where _ _)
  | cons clause more ih =>
      cases second with
      | nil => exact absurd h.symm (clause.print_ne_where _ _)
      | cons other others =>
          obtain ⟨hclause, hmore⟩ := List.forall_mem_cons.mp hfirst
          obtain ⟨hother, hothers⟩ := List.forall_mem_cons.mp hsecond
          obtain ⟨rfl, hafter⟩ := hL.eq_of_clause hclause hother
            (ClauseOutline.startsWith_printEach more (startsWith_where _))
            (ClauseOutline.startsWith_printEach others (startsWith_where _)) (ahead_injective h)
          obtain ⟨rfl, rfl⟩ := ih hmore hothers hafter
          exact ⟨rfl, rfl⟩

/-- A dataset does not look like the line after it. -/
theorem eq_empty_of_dataset {dataset : String} (hdataset : L.dataset dataset)
    {rest further : List Char} (hrest : StartsWith ["\n"] rest)
    (h : rest = ahead dataset further) : dataset = "" := by
  refine (hL.dataset dataset hdataset).resolve_right fun hfrom => ?_
  obtain ⟨opening, hopening, tail, htail⟩ := hfrom
  obtain rfl := List.mem_singleton.mp hopening
  rw [h, SparqlGenerate.ahead, ← htail] at hrest
  simp [StartsWith] at hrest

/-- The text after the first line of a query starts a new line, or is the dataset. -/
theorem startsWith_dataset {dataset : String} (hdataset : dataset = "" ∨ L.dataset dataset)
    {rest : List Char} (hrest : StartsWith ["\n"] rest) :
    StartsWith ["\n", " FROM "] (ahead dataset rest) := by
  have hnone : StartsWith ["\n", " FROM "] (ahead "" rest) := by
    rw [ahead_empty]
    exact hrest.mono (by simp)
  rcases hdataset with rfl | hdataset
  · exact hnone
  · rcases hL.dataset dataset hdataset with rfl | hfrom
    · exact hnone
    · exact (hfrom.ahead rest).mono (by simp)

theorem eq_of_dataset {first second : String} (hfirst : first = "" ∨ L.dataset first)
    (hsecond : second = "" ∨ L.dataset second) {rest further : List Char}
    (hrest : StartsWith ["\n"] rest) (hfurther : StartsWith ["\n"] further)
    (h : ahead first rest = ahead second further) : first = second ∧ rest = further := by
  have hsame : first = second := by
    rcases hfirst with rfl | hfirst
    · rcases hsecond with rfl | hsecond
      · rfl
      · rw [ahead_empty] at h
        exact (hL.eq_empty_of_dataset hsecond hrest h).symm
    · rcases hsecond with rfl | hsecond
      · rw [ahead_empty] at h
        exact hL.eq_empty_of_dataset hfirst hfurther h.symm
      · exact (hL.eq_of_ahead .dataset hfirst hsecond hrest hfurther h).1
  subst hsame
  exact ⟨rfl, ahead_injective h⟩

end Lexicon.Legible

/-! ## Templates and queries -/

/-- What the next piece of a template is, or its end, by the character after the blank. -/
inductive Mark where
  | close
  | gap
  | triple
  | query

def Mark.read : List Char → Mark
  | '\x7d' :: _ => .close
  | ' ' :: _ => .gap
  | 'S' :: _ | 'T' :: _ | 'G' :: _ => .query
  | _ => .triple

def Piece.mark : Piece → Mark
  | .gap => .gap
  | .triple _ => .triple
  | .query _ => .query

theorem Mark.read_outline (outline : Outline) (rest : List Char) :
    read (outline.print rest) = .query := by
  obtain ⟨form, dataset, clauses, pattern⟩ := outline
  cases form <;> rfl

theorem Mark.read_term {L : Lexicon} (hL : L.Legible) {term : TermOutline} (h : term.Within L)
    (rest : List Char) : read (term.print rest) = .triple := by
  cases term with
  | embedded text => rfl
  | term text =>
      obtain ⟨opening, hopening, tail, htail⟩ := hL.term text h
      rw [TermOutline.print, ahead, ← htail]
      simp only [List.mem_cons, List.not_mem_nil, or_false] at hopening
      rcases hopening with rfl | rfl | rfl | rfl <;> rfl

/-- The first character of a piece, which a further blank follows, says what piece it is. -/
theorem Mark.read_piece {L : Lexicon} (hL : L.Legible) {piece : Piece} (h : piece.Within L)
    {rest : List Char} (hrest : StartsWith [" "] rest) : read (piece.print rest) = piece.mark := by
  cases piece with
  | gap =>
      obtain ⟨opening, hopening, tail, rfl⟩ := hrest
      obtain rfl := List.mem_singleton.mp hopening
      rfl
  | triple triple =>
      obtain ⟨hsubject, -, -⟩ := h
      exact Mark.read_term hL hsubject _
  | query outline => exact Mark.read_outline outline _

theorem Piece.startsWith_printEach (pieces : List Piece) {rest : List Char} :
    StartsWith [" "] (printEach pieces (ahead " \x7d" rest)) := by
  cases pieces with
  | nil => exact startsWith_self " " (ahead "\x7d" rest)
  | cons piece more => exact startsWith_self " " _

/-- No piece looks like the end of the template. -/
theorem Piece.print_ne_close {L : Lexicon} (hL : L.Legible) {piece : Piece} (h : piece.Within L)
    {rest : List Char} (hrest : StartsWith [" "] rest) (further : List Char) :
    ahead " \x7d" further ≠ ahead " " (piece.print rest) := by
  intro heq
  have hsplit : ahead " \x7d" further = ahead " " (ahead "\x7d" further) := rfl
  have hclose := ahead_injective (hsplit.symm.trans heq)
  have hmark := Mark.read_piece hL h hrest
  rw [← hclose] at hmark
  cases piece <;> cases hmark

/-- The keywords of the forms start with different letters, but for a definition and a call. -/
theorem FormOutline.head?_print (form : FormOutline) (rest : List Char) :
    (form.print rest).head? = match form with
      | .select => some 'S'
      | .template _ => some 'T'
      | .generate .. | .call .. => some 'G' := by
  cases form <;> rfl

theorem Heading.fits_of_call {L : Lexicon} {name : String} {parameters : List String}
    (hname : L.term name) (hparameters : ∀ parameter ∈ parameters, L.expr parameter) :
    Heading.Fits L ⟨some name, some parameters⟩ := by
  refine ⟨?_, ?_⟩
  · rintro _ ⟨⟩
    exact hname
  · rintro _ ⟨⟩ text htext
    exact Or.inr (hparameters text htext)

/-- A definition and a call go on differently after the name and the list in parentheses. -/
theorem Lexicon.Legible.ne_of_call {L : Lexicon} (hL : L.Legible) {heading : Heading}
    (hheading : heading.Within L) {name : String} {parameters : List String} (hname : L.term name)
    (hparameters : ∀ parameter ∈ parameters, L.expr parameter) {rest further : List Char}
    (hfurther : StartsWith ["\n", " FROM "] further) :
    heading.print (ahead " \x7b" rest) ≠ Heading.print ⟨some name, some parameters⟩ further := by
  intro h
  obtain ⟨-, hrest⟩ := hL.eq_of_heading hheading.fits (Heading.fits_of_call hname hparameters)
    (Or.inl (startsWith_self _ _)) (Or.inr ⟨nofun, hfurther⟩) h
  rw [← hrest] at hfurther
  simp [StartsWith, ahead] at hfurther

mutual

/-- An outline is read back from its text, up to what follows it. -/
theorem Outline.eq_of_print {L : Lexicon} (hL : L.Legible) : (first second : Outline) →
    first.Within L → second.Within L → (rest further : List Char) →
    first.print rest = second.print further → first = second ∧ rest = further
  | ⟨form, dataset, clauses, pattern⟩, ⟨form', dataset', clauses', pattern'⟩,
    ⟨hform, hdataset, hclauses, hpattern⟩, ⟨hform', hdataset', hclauses', hpattern'⟩,
    rest, further, h => by
    have hline := fun rest => ClauseOutline.startsWith_printEach clauses (startsWith_where rest)
    have hline' := fun rest =>
      ClauseOutline.startsWith_printEach clauses' (startsWith_where rest)
    obtain ⟨rfl, htail⟩ := FormOutline.eq_of_print hL form form' hform hform' _ _
      (hL.startsWith_dataset hdataset (hline _)) (hL.startsWith_dataset hdataset' (hline' _)) h
    obtain ⟨rfl, hlines⟩ := hL.eq_of_dataset hdataset hdataset' (hline _) (hline' _) htail
    obtain ⟨rfl, hbraces⟩ := hL.eq_of_clauses hclauses hclauses' hlines
    obtain ⟨rfl, hlast⟩ := hL.eq_of_ahead .pattern hpattern hpattern' (startsWith_self _ _)
      (startsWith_self _ _) hbraces
    exact ⟨rfl, ahead_injective hlast⟩

theorem FormOutline.eq_of_print {L : Lexicon} (hL : L.Legible) : (first second : FormOutline) →
    first.Within L → second.Within L → (rest further : List Char) →
    StartsWith ["\n", " FROM "] rest → StartsWith ["\n", " FROM "] further →
    first.print rest = second.print further → first = second ∧ rest = further
  | .select, second, _, _, rest, further, _, _, h => by
    have hkeyword := congrArg List.head? h
    rw [FormOutline.head?_print, FormOutline.head?_print] at hkeyword
    cases second with
    | select =>
        rw [FormOutline.print, FormOutline.print] at h
        exact ⟨rfl, ahead_injective h⟩
    | template | generate | call => cases hkeyword
  | .template heading, second, hfirst, hsecond, rest, further, _, _, h => by
    have hkeyword := congrArg List.head? h
    rw [FormOutline.head?_print, FormOutline.head?_print] at hkeyword
    cases second with
    | template other =>
        rw [FormOutline.print, FormOutline.print] at h
        have hbraces : ∀ rest, StartsWith [" \x7b"] (ahead " \x7b \x7d" rest) := by
          simp [StartsWith, ahead]
        obtain ⟨rfl, htail⟩ := hL.eq_of_heading hfirst.fits hsecond.fits (Or.inl (hbraces _))
          (Or.inl (hbraces _)) (ahead_injective h)
        exact ⟨rfl, ahead_injective htail⟩
    | select | generate | call => cases hkeyword
  | .generate heading pieces, second, hfirst, hsecond, rest, further, _, hfurther, h => by
    have hkeyword := congrArg List.head? h
    rw [FormOutline.head?_print, FormOutline.head?_print] at hkeyword
    obtain ⟨hheading, hpieces⟩ := hfirst
    cases second with
    | generate other others =>
        rw [FormOutline.print, FormOutline.print] at h
        obtain ⟨hother, hothers⟩ := hsecond
        obtain ⟨rfl, htail⟩ := hL.eq_of_heading hheading.fits hother.fits
          (Or.inl (startsWith_self _ _)) (Or.inl (startsWith_self _ _)) (ahead_injective h)
        obtain ⟨rfl, rfl⟩ := Piece.eq_of_printEach hL pieces others hpieces hothers rest further
          (ahead_injective htail)
        exact ⟨rfl, rfl⟩
    | call name parameters =>
        rw [FormOutline.print, FormOutline.print] at h
        obtain ⟨hname, hparameters⟩ := hsecond
        exact absurd (ahead_injective h) (hL.ne_of_call hheading hname hparameters hfurther)
    | select | template => cases hkeyword
  | .call name parameters, second, hfirst, hsecond, rest, further, hrest, hfurther, h => by
    have hkeyword := congrArg List.head? h
    rw [FormOutline.head?_print, FormOutline.head?_print] at hkeyword
    obtain ⟨hname, hparameters⟩ := hfirst
    cases second with
    | call other others =>
        rw [FormOutline.print, FormOutline.print] at h
        obtain ⟨hother, hothers⟩ := hsecond
        obtain ⟨hsame, rfl⟩ := hL.eq_of_heading (Heading.fits_of_call hname hparameters)
          (Heading.fits_of_call hother hothers) (Or.inr ⟨nofun, hrest⟩) (Or.inr ⟨nofun, hfurther⟩)
          (ahead_injective h)
        cases hsame
        exact ⟨rfl, rfl⟩
    | generate heading pieces =>
        rw [FormOutline.print, FormOutline.print] at h
        obtain ⟨hheading, -⟩ := hsecond
        exact absurd (ahead_injective h).symm
          (hL.ne_of_call hheading hname hparameters hrest)
    | select | template => cases hkeyword

theorem Piece.eq_of_print {L : Lexicon} (hL : L.Legible) : (first second : Piece) →
    first.Within L → second.Within L → (rest further : List Char) →
    StartsWith [" "] rest → StartsWith [" "] further →
    first.print rest = second.print further → first = second ∧ rest = further
  | .query outline, .query other, hfirst, hsecond, rest, further, _, _, h => by
    rw [Piece.print, Piece.print] at h
    obtain ⟨rfl, htail⟩ := Outline.eq_of_print hL outline other hfirst hsecond _ _ h
    exact ⟨rfl, ahead_injective htail⟩
  | .triple triple, .triple other, hfirst, hsecond, rest, further, _, _, h => by
    rw [Piece.print, Piece.print] at h
    obtain ⟨rfl, rfl⟩ := hL.eq_of_triple hfirst hsecond h
    exact ⟨rfl, rfl⟩
  | .gap, .gap, _, _, rest, further, _, _, h => by
    rw [Piece.print, Piece.print] at h
    exact ⟨rfl, h⟩
  | .query _, .triple _, hfirst, hsecond, _, _, hrest, hfurther, h
  | .query _, .gap, hfirst, hsecond, _, _, hrest, hfurther, h
  | .triple _, .query _, hfirst, hsecond, _, _, hrest, hfurther, h
  | .triple _, .gap, hfirst, hsecond, _, _, hrest, hfurther, h
  | .gap, .query _, hfirst, hsecond, _, _, hrest, hfurther, h
  | .gap, .triple _, hfirst, hsecond, _, _, hrest, hfurther, h => by
    have hmark := Mark.read_piece hL hfirst hrest
    rw [h, Mark.read_piece hL hsecond hfurther] at hmark
    cases hmark

theorem Piece.eq_of_printEach {L : Lexicon} (hL : L.Legible) : (first second : List Piece) →
    Piece.WithinEach L first → Piece.WithinEach L second → (rest further : List Char) →
    Piece.printEach first (ahead " \x7d" rest) = Piece.printEach second (ahead " \x7d" further) →
    first = second ∧ rest = further
  | [], [], _, _, rest, further, h => by
    rw [Piece.printEach, Piece.printEach] at h
    exact ⟨rfl, ahead_injective h⟩
  | [], other :: others, _, hsecond, rest, further, h => by
    rw [Piece.printEach, Piece.printEach] at h
    exact absurd h (Piece.print_ne_close hL hsecond.1 (Piece.startsWith_printEach others) rest)
  | piece :: more, [], hfirst, _, rest, further, h => by
    rw [Piece.printEach, Piece.printEach] at h
    exact absurd h.symm
      (Piece.print_ne_close hL hfirst.1 (Piece.startsWith_printEach more) further)
  | piece :: more, other :: others, hfirst, hsecond, rest, further, h => by
    rw [Piece.printEach, Piece.printEach] at h
    obtain ⟨rfl, htail⟩ := Piece.eq_of_print hL piece other hfirst.1 hsecond.1 _ _
      (Piece.startsWith_printEach more) (Piece.startsWith_printEach others) (ahead_injective h)
    obtain ⟨rfl, rfl⟩ := Piece.eq_of_printEach hL more others hfirst.2 hsecond.2 rest further htail
    exact ⟨rfl, rfl⟩

end

end SparqlGenerate
