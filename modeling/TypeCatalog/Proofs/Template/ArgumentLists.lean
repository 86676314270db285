import TypeCatalog.Proofs.Template.Elision

/-!
# Argument lists as pieces between commas

**Input.** A list of template arguments as a text.

**Rule.** The scanner cuts at a comma when no bracket and no parenthesis is open. Whether one is open
depends on all of the text before the comma, and both counts may be below zero.

**Notions.** `CutAtTop n ps` says that the texts `ps` are what a scan from the nesting `n` cuts: no
comma stands at the top inside of them, and the scan is at the top where one of them ends and the
next begins. A padded argument is one with blanks around it.

**Results.**
* `cutAtTop_cutCommas`: the pieces of a text are cut at the top.
* `Padded.trim_written`, `Padded.whole_written`: blanks change neither an argument nor the scan.
* `arguments_inverts_joining`: arguments that are joined with commas and blanks are read again, and
  the arguments of any text are pieces of it that make up the text.
-/

namespace TypeCatalog
namespace Template

open Text Name

/-- A scan from the nesting meets no comma at the top inside of the texts, and is at the top between
two of them. -/
inductive CutAtTop :
    Nesting → List (List Char) → Prop
  | last
      {n : Nesting} {p : List Char}
      (hquiet : Quiet ',' n p) :
      CutAtTop n [p]
  | piece
      {n : Nesting} {p : List Char} {ps : List (List Char)}
      (hquiet : Quiet ',' n p)
      (htop : n.run p = .start)
      (hrest : CutAtTop .start ps) :
      CutAtTop n (p :: ps)

/-- An argument as it may stand in a list, with blanks around it. -/
structure Padded where
  before : List Char
  text : List Char
  after : List Char
  blank_before : ∀ c ∈ before, isBlank c = true
  blank_after : ∀ c ∈ after, isBlank c = true

section Pieces

/-- A character that is no comma at the top goes to the front of the first piece. -/
theorem CutAtTop.consHead
    {n : Nesting} {c : Char} {ps : List (List Char)}
    (h : CutAtTop (n.step c) ps)
    (hc : n.isTop = true → c ≠ ',') :
    CutAtTop n (consHead c ps) := by
  cases h with
  | last hquiet =>
      exact .last ⟨hc, hquiet⟩
  | piece hquiet htop hrest =>
      exact .piece ⟨hc, hquiet⟩ htop hrest

theorem cutAtTop_cutCommas
    (n : Nesting) (cs : List Char) :
    CutAtTop n (cutCommas n cs) := by
  induction cs generalizing n with
  | nil =>
      exact .last trivial
  | cons c cs ih =>
      rw [cutCommas]
      split
      · next hcut =>
          obtain rfl := (Nesting.isTop_iff n).mp hcut.2
          exact .piece trivial rfl (ih .start)
      · next hcut =>
          exact (ih (n.step c)).consHead fun htop hc => hcut ⟨hc, htop⟩

end Pieces

section Blanks

/-- Blanks are neither brackets nor commas. -/
theorem whole_of_blank
    {w : List Char}
    (h : ∀ c ∈ w, isBlank c = true) :
    Whole ',' w := by
  refine whole_of_plain (fun c hc => ?_) fun hcomma => absurd (h ',' hcomma) (by decide)
  refine Bool.eq_false_iff.mpr fun hbracket => ?_
  simp only [isBracket, Bool.or_eq_true, beq_iff_eq] at hbracket
  rcases hbracket with ((rfl | rfl) | rfl) | rfl <;> exact absurd (h _ hc) (by decide)

namespace Padded

/-- The argument with its blanks. -/
def written
    (p : Padded) :
    List Char :=
  p.before ++ (p.text ++ p.after)

theorem whole_written
    {p : Padded}
    (h : Whole ',' p.text) :
    Whole ',' p.written :=
  (whole_of_blank p.blank_before).append (h.append (whole_of_blank p.blank_after))

theorem trim_written
    {p : Padded}
    (h : Tidy p.text) :
    trim p.written = p.text :=
  h.trim_padded p.blank_before p.blank_after

end Padded

/-- Arguments without blanks at their ends and without commas at the top are the arguments of the
list that they are joined to, with any blanks around the commas. -/
theorem arguments_padded
    {ps : List Padded}
    (htidy : ∀ p ∈ ps, Tidy p.text)
    (hwhole : ∀ p ∈ ps, Whole ',' p.text) :
    arguments (joinWith "," (ps.map Padded.written)) = ps.map Padded.text := by
  have hparts : ∀ a ∈ ps.map Padded.written, Whole ',' a := by
    intro a ha
    obtain ⟨p, hp, rfl⟩ := List.mem_map.mp ha
    exact Padded.whole_written (hwhole p hp)
  have hsome : ∀ a, ps.map Padded.written = [a] → trim a ≠ [] := by
    intro a ha
    obtain ⟨p, hp, rfl⟩ : ∃ p ∈ ps, p.written = a := List.mem_map.mp (by simp [ha])
    rw [Padded.trim_written (htidy p hp)]
    exact (htidy p hp).ne_nil
  rw [arguments_of_component hparts hsome, List.map_map]
  exact List.map_congr_left fun p hp => Padded.trim_written (htidy p hp)

end Blanks

/-- Arguments that are not empty, have no blank at their ends, leave nothing open and hold no comma
at the top are read again from the list that they are joined to, whatever blanks stand around the
commas. The arguments of any text that is not blank are its pieces between the commas at the top,
without the blanks at their ends. -/
theorem arguments_inverts_joining :
    (∀ ps : List Padded, (∀ p ∈ ps, Tidy p.text ∧ Whole ',' p.text) →
      arguments (joinWith "," (ps.map Padded.written)) = ps.map Padded.text) ∧
    ∀ list : List Char, trim list ≠ [] →
      ∃ pieces, CutAtTop .start pieces ∧ joinWith "," pieces = list ∧
        arguments list = pieces.map trim := by
  refine ⟨fun ps h => arguments_padded (fun p hp => (h p hp).1) fun p hp => (h p hp).2,
    fun list hlist => ⟨cutCommas .start list, cutAtTop_cutCommas .start list,
      joinWith_cutCommas .start list, ?_⟩⟩
  rw [arguments, if_neg (by simpa using hlist)]

/-- A comparison, a function type and an instance, with blanks around the commas. -/
theorem arguments_of_comparison :
    arguments "(1<2) , int(a,b),\tmap<c,d>".toList =
        ["(1<2)".toList, "int(a,b)".toList, "map<c,d>".toList] ∧
      ∃ pieces, CutAtTop .start pieces ∧ joinWith "," pieces = "a>,b,<c ,d".toList ∧
        arguments "a>,b,<c ,d".toList = pieces.map trim := by
  have hblank : ∀ c ∈ [' '], isBlank c = true := by
    decide
  have htab : ∀ c ∈ ['\t'], isBlank c = true := by
    decide
  have hnone : ∀ c ∈ ([] : List Char), isBlank c = true := by
    simp
  have hargs : ∀ w ∈ ["(1<2)".toList, "int(a,b)".toList, "map<c,d>".toList],
      w ≠ [] ∧ (∀ c ∈ w, isBlank c = false) ∧ Whole ',' w := by
    decide
  refine ⟨?_, arguments_inverts_joining.2 _ (by decide)⟩
  refine arguments_inverts_joining.1
    [⟨[], "(1<2)".toList, [' '], hnone, hblank⟩, ⟨[' '], "int(a,b)".toList, [], hblank, hnone⟩,
      ⟨['\t'], "map<c,d>".toList, [], htab, hnone⟩] fun p hp => ?_
  obtain ⟨hne, hunblank, hwhole⟩ := hargs p.text (List.mem_map_of_mem hp)
  exact ⟨tidy_of_unblank hne hunblank, hwhole⟩

end Template
end TypeCatalog
