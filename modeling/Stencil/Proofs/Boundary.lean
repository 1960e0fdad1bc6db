import Stencil.Proofs.Development
import Stencil.Proofs.Extent

/-!
# Cutting a source in two

Between two lexemes a source can be cut. What stands in front of the cut has the same lexemes without
what follows, for no reader can tell the end of the source from a place where it stops anyway; and
what stands behind it has the lexemes it would have by itself, only further on. If moreover no element
is open at the cut, the two parts have nothing to do with each other, and compiling the source is
compiling one part and then the other.

Main results:

* `Source.lexemesFrom_replace`: the lexemes of a front part do not hang on what follows it;
* `Reaches.lexemes_append`: at a place that the scan reaches, the row of the source falls in two;
* `compile_append`: where nothing is open, so do the tree and the diagnostics.
-/

namespace Stencil

-- ---------------------------------------------------------------------------
-- Rows
-- ---------------------------------------------------------------------------

namespace Source

variable {start : Nat} {more : List Char} {before after : List Lexeme}

/-- What is left behind the first lexemes of a row is the text that the others were read from. -/
theorem flatMap_source_after
    (h : lexemesFrom start (before.flatMap Lexeme.source ++ more) = before ++ after) :
    after.flatMap Lexeme.source = more := by
  have hall := flatMap_source_lexemesFrom start (before.flatMap Lexeme.source ++ more)
  rw [h, List.flatMap_append] at hall
  exact (List.append_right_inj _).1 hall

/-- The lexemes that make up as many bytes as a front part of the text make up that part. -/
theorem flatMap_source_of_byteLength {front rest : List Char}
    (h : lexemesFrom start (front ++ rest) = before ++ after)
    (hbytes : Text.byteLength (before.flatMap Lexeme.source) = Text.byteLength front) :
    before.flatMap Lexeme.source = front ∧ after.flatMap Lexeme.source = rest := by
  have htext := flatMap_source_lexemesFrom start (front ++ rest)
  rw [h, List.flatMap_append] at htext
  exact Text.append_inj_of_byteLength htext hbytes

/-- How the first lexeme of a row was read, when the text goes on behind the row. -/
theorem read_of_row {first : Lexeme}
    (h : lexemesFrom start ((first :: before).flatMap Lexeme.source ++ more) =
      first :: before ++ after) :
    first.start = start ∧ ∃ c cs, (first :: before).flatMap Lexeme.source = c :: cs ∧
      Item.read c (cs ++ more) = (first.item, before.flatMap Lexeme.source ++ more) := by
  have hmore := flatMap_source_after h
  have hmem : first ∈ lexemesFrom start ((first :: before).flatMap Lexeme.source ++ more) := by
    rw [h]
    exact List.mem_cons_self
  have hrow : lexemesFrom start ((first :: before).flatMap Lexeme.source ++ more) =
      [] ++ first :: (before ++ after) := h
  obtain ⟨c, behind, htext, hstart, hitem, hbehind⟩ := lexemesFrom_split hrow
  obtain ⟨d, ds, hds⟩ := List.exists_cons_of_ne_nil (source_ne_nil_of_mem hmem)
  have hcons : (first :: before).flatMap Lexeme.source =
      d :: (ds ++ before.flatMap Lexeme.source) := by
    rw [List.flatMap_cons, hds]
    rfl
  refine ⟨hstart, d, ds ++ before.flatMap Lexeme.source, hcons, ?_⟩
  rw [hcons, List.flatMap_nil, List.nil_append, List.cons_append] at htext
  obtain ⟨rfl, rfl⟩ := List.cons.inj htext
  refine Prod.ext hitem.symm ?_
  rw [← hbehind, List.flatMap_append, hmore]

/-- If a row is that of a text up to the end of a front part, it is so with anything else behind that
part, as long as the last lexeme of the row does not go on into it and was not cut off. -/
theorem lexemesFrom_replace {other : List Char}
    (h : lexemesFrom start (before.flatMap Lexeme.source ++ more) = before ++ after)
    (hlast : ∀ last, before.getLast? = some last →
      last.item.StopsBefore other ∧ (more = [] → ¬CutOff last.source)) :
    lexemesFrom start (before.flatMap Lexeme.source ++ other) =
      before ++ lexemesFrom (start + Text.byteLength (before.flatMap Lexeme.source)) other := by
  induction before generalizing start with
  | nil => simp
  | cons first before ih =>
    obtain ⟨hstart, c, cs, hcons, hread⟩ := read_of_row h
    have hrow : lexemesFrom (start + Text.byteLength first.source)
        (before.flatMap Lexeme.source ++ more) = before ++ after := by
      have hsplit : lexemesFrom start ((first :: before).flatMap Lexeme.source ++ more) =
          [first] ++ (before ++ after) := h
      have hafter := lexemesFrom_after hsplit
      rw [List.flatMap_append, flatMap_source_after h, List.flatMap_singleton] at hafter
      exact hafter
    have hothers := ih hrow fun last h => hlast last (by rw [List.getLast?_cons, h]; rfl)
    -- the first lexeme is the last one if no text of the row is left behind it
    have hone : before.flatMap Lexeme.source = [] → (first :: before).getLast? = some first := by
      intro hnil
      rw [eq_nil_of_flatMap_source hrow hnil]
      rfl
    have hwhole : before.flatMap Lexeme.source ++ more = [] → ¬CutOff (c :: cs) := by
      intro hleft
      obtain ⟨hnil, rfl⟩ := List.append_eq_nil_iff.1 hleft
      rw [← hcons, List.flatMap_cons, hnil, List.append_nil]
      exact (hlast first (hone hnil)).2 rfl
    have hnext := Item.read_replace hread hwhole fun hnil => (hlast first (hone hnil)).1
    have htext : c :: (cs ++ other) = first.source ++ (before.flatMap Lexeme.source ++ other) := by
      rw [← List.cons_append, ← hcons, List.flatMap_cons, List.append_assoc]
    rw [hcons, List.cons_append, lexemesFrom_cons hnext htext, hothers, ← hcons, List.flatMap_cons,
      Text.byteLength_append, Nat.add_assoc, ← hstart]
    rfl

end Source

-- ---------------------------------------------------------------------------
-- Places that the scan reaches
-- ---------------------------------------------------------------------------

open Source (Lexeme lexemes lexemesFrom)

/-- The scan of a text comes to a place, behind so many bytes, where the next lexeme is read if any
text is left. By then `build` has been built. -/
def Reaches (development : Bool) (text : List Char) (position : Nat) (build : Build) : Prop :=
  ∃ before after, lexemes text = before ++ after ∧
    Text.byteLength (before.flatMap Lexeme.source) = position ∧
    ({} : Build).run development before = build

/-- At a place that the scan reaches the row of the source falls in two: the lexemes of the front part,
from which the tree so far was built, and those of the other part, moved behind it. -/
theorem Reaches.lexemes_append {development : Bool} {front rest : List Char} {build : Build}
    (h : Reaches development (front ++ rest) (Text.byteLength front) build) :
    lexemes (front ++ rest) =
        lexemes front ++ (lexemes rest).map (Lexeme.shift (Text.byteLength front)) ∧
      ({} : Build).run development (lexemes front) = build := by
  obtain ⟨before, after, hrow, hplace, hbuild⟩ := h
  obtain ⟨rfl, rfl⟩ := Source.flatMap_source_of_byteLength hrow hplace
  have hafter := Source.lexemesFrom_after hrow
  rw [Nat.zero_add, Source.lexemesFrom_eq_map_shift] at hafter
  have hbefore : lexemes (before.flatMap Lexeme.source) = before := by
    by_cases hnil : after.flatMap Lexeme.source = []
    · rw [hnil] at hafter hrow
      rw [lexemes, lexemesFrom, List.map_nil] at hafter
      rw [← hafter, List.append_nil, List.append_nil] at hrow
      exact hrow
    · have hlast : ∀ last, before.getLast? = some last →
          last.item.StopsBefore [] ∧
            (after.flatMap Lexeme.source = [] → ¬Source.CutOff last.source) :=
        fun last _ => ⟨last.item.stopsBefore_nil, fun h => absurd h hnil⟩
      have hfront := Source.lexemesFrom_replace hrow hlast
      rw [lexemesFrom, List.append_nil, List.append_nil] at hfront
      exact hfront
  rw [hbefore, hafter]
  exact ⟨hrow, hbuild⟩

-- ---------------------------------------------------------------------------
-- Two compilations in a row
-- ---------------------------------------------------------------------------

section

variable {development : Bool} {front rest : List Char} {build : Build}

theorem Reaches.top_ofText (h : Reaches development (front ++ rest) (Text.byteLength front) build)
    (hroot : build.stack = []) :
    (Build.ofText development (front ++ rest)).top =
      (Build.ofText development front).top ++ (Build.ofText development rest).top := by
  obtain ⟨hrow, rfl⟩ := h.lexemes_append
  have hfront : (Build.ofText development front).top =
      (({} : Build).run development (lexemes front)).top := by
    rw [Build.ofText, Build.finish_of_nil development hroot]
  rw [Build.ofText, hrow, Build.run_append, Build.top_finish_run, hroot, Source.map_item_shift,
    Build.resume, List.append_nil, hfront, Build.top_ofText, Source.items]

/-- The findings of the front part leave no tag open, so those of the other part are its own. -/
theorem Reaches.diagnostics_ofText (h : Reaches true (front ++ rest) (Text.byteLength front) build)
    (hroot : build.stack = []) :
    (Build.ofText true (front ++ rest)).journal.diagnostics =
      (Build.ofText true front).journal.diagnostics ++
        (Build.ofText true rest).journal.diagnostics.map
          (Diagnostic.shift (Text.byteLength front)) := by
  obtain ⟨hrow, rfl⟩ := h.lexemes_append
  have hclosed : openTags [] (lexemes front) = [] := by
    rw [← Build.map_openTag_stack_run true, hroot, List.map_nil]
  have hfindings := findings_shift (Text.byteLength front) [] (lexemes rest)
  have htags := openTags_shift (Text.byteLength front) [] (lexemes rest)
  rw [List.map_nil] at hfindings htags
  rw [Build.diagnostics_ofText, Build.diagnostics_ofText, Build.diagnostics_ofText, hrow,
    findings_append, openTags_append, hclosed, hfindings, htags, OpenTag.unclosed_shift,
    List.map_nil, List.append_nil, List.map_append, List.append_assoc]

end

/-- **Where nothing is open, a source can be cut in two.** If the scan of a source comes to a place
with no element open, the tree has the nodes of the front part and then those of the other part, and
the same holds of the diagnostics, those of the other part by the bytes of the front part further
on. Neither part has to be free of mistakes. -/
theorem compile_append (development : Bool) {a b : String} {build : Build}
    (hreach : Reaches development (a ++ b).toList a.utf8ByteSize build)
    (hroot : build.stack = []) :
    let options : CompileOptions := { development := development, stripBlockComments := false }
    (compile options (a ++ b)).root.children =
        (compile options a).root.children ++ (compile options b).root.children ∧
      (compile options (a ++ b)).diagnostics =
        (compile options a).diagnostics ++
          (compile options b).diagnostics.map (Diagnostic.shift a.utf8ByteSize) := by
  intro options
  have htext : (a ++ b).toList = a.toList ++ b.toList := String.toList_append
  rw [htext, ← Text.byteLength_toList] at hreach
  rw [← Text.byteLength_toList]
  constructor
  · have htop := hreach.top_ofText hroot
    rw [← htext] at htop
    exact htop
  · cases development with
    | true =>
      have hdiagnostics := hreach.diagnostics_ofText hroot
      rw [← htext] at hdiagnostics
      exact hdiagnostics
    | false =>
      rw [diagnostics_compile_off rfl, diagnostics_compile_off rfl, diagnostics_compile_off rfl,
        List.map_nil, List.append_nil]

/-- The tag that a slash ends might take an end mark along, and the closing tag in front of it closes
nothing; the parts are compiled one by one all the same. -/
theorem compile_append_slash :
    let options : CompileOptions := { development := true, stripBlockComments := false }
    let a := "é</x><br/"
    let b := "<q>"
    (∃ build, Reaches true (a ++ b).toList a.utf8ByteSize build ∧ build.stack = []) ∧
      (compile options (a ++ b)).root.children =
        [.text "é", .element "br" [] [], .element "q" [] []] ∧
      (compile options (a ++ b)).diagnostics = [⟨.stray "x", 2⟩, ⟨.unclosed "q", 10⟩] := by
  intro options a b
  let before : List Lexeme := [⟨0, ['é'], .text "é"⟩, ⟨2, "</x>".toList, .closing "x"⟩,
    ⟨6, "<br/".toList, .leaf "br" []⟩]
  have hrow : lexemes (a ++ b).toList = before ++ [⟨10, "<q>".toList, .opening "q" []⟩] := by
    decide +kernel
  have hreach : Reaches true (a ++ b).toList a.utf8ByteSize (({} : Build).run true before) :=
    ⟨before, _, hrow, by decide +kernel, rfl⟩
  have hroot : (({} : Build).run true before).stack = [] := by decide +kernel
  obtain ⟨hchildren, hdiagnostics⟩ := compile_append true hreach hroot
  refine ⟨⟨_, hreach, hroot⟩, ?_, ?_⟩
  · rw [hchildren]
    decide +kernel
  · rw [hdiagnostics]
    decide +kernel

end Stencil
