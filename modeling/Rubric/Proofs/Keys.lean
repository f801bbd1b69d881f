/-
  Rubric — what keys lead to.

  Keys are found in indexes beside the definitions, one for each document and a
  global one.  They are kept in step by the one operation that adds a
  definition, whether it is asked for from outside or by a command.

  * `keysOf_registerKey`, `keysOf_modifyDocument`, `keysOf_addDocument`: the indexes
    after one change;
  * `Context.IsUnder`, `Context.IsLatest`: the definitions under a key in a scope,
    and the one that was added last;
  * `Context.IsIndexed`: the indexes lead to the latest definitions; this stays so
    under edits (`Edit.staysIndexed`) and passes (`staysIndexed_handleCommands`,
    `staysIndexed_handleFonts`);
  * **`lookup_latest`**: a key leads to the latest definition under it in the scope
    of the document, else to the latest one in the global scope.
-/
import Rubric.Proofs.Texts

namespace Rubric

open Context

variable {c c' c₁ : Context} {id x y : DefinitionId} {document : Option DocumentId} {key : String}

namespace Context

/-! ## Indexes after a change -/

theorem keysOf_of_core_eq (h : c'.core = c.core) (d : Option DocumentId) :
    c'.keysOf d = c.keysOf d := by
  rw [← keysOf_core, h, keysOf_core]

/-- A change of a document that leaves its keys. -/
theorem keysOf_modifyDocument (c : Context) (document : DocumentId) {f : Document → Document}
    (hf : ∀ document, (f document).keys = document.keys) (d : Option DocumentId) :
    (c.modifyDocument document f).keysOf d = c.keysOf d := by
  rcases d with _ | d
  · rfl
  · simp only [keysOf, document?, modifyDocument, Array.getElem?_modify]
    split
    · rw [Option.map_map]
      exact congrArg (Option.getD · _) (congrArg (Option.map · _) (funext hf))
    · rfl

theorem keysOf_addDocument (c : Context) (key name : String) (d : Option DocumentId) :
    (c.addDocument key name).2.keysOf d = c.keysOf d := by
  rcases d with _ | d
  · rfl
  · simp only [keysOf, document?, addDocument, Array.getElem?_push]
    split
    · rename_i he
      rw [he, Array.getElem?_eq_none (Nat.le_refl _)]
      rfl
    · rfl

/-- Apart from a warning, the registration of a key changes one index. -/
theorem exists_registerKey (c : Context) (document : Option DocumentId) (key : String)
    (id : DefinitionId) : ∃ warned : Context,
      warned.documents = c.documents ∧ warned.globalKeys = c.globalKeys ∧
        c.registerKey document key id = match document with
          | none => { warned with globalKeys := warned.globalKeys.insert key id }
          | some n => warned.modifyDocument n fun d => { d with keys := d.keys.insert key id } := by
  unfold registerKey
  rcases hold : (c.keysOf document).get? key with _ | old
  · exact ⟨c, rfl, rfl, by cases document <;> rfl⟩
  · exact ⟨c.warn (.keyReplaced id old key), rfl, rfl, by cases document <;> rfl⟩

/-- A key is registered in the scope of a document there is, or in the global scope. -/
theorem keysOf_registerKey (h : c.HasList document) (d : Option DocumentId) :
    (c.registerKey document key id).keysOf d =
      if document = d then (c.keysOf d).insert key id else c.keysOf d := by
  obtain ⟨warned, hdocuments, hglobal, he⟩ := c.exists_registerKey document key id
  rw [he]
  rcases document with _ | n <;> rcases d with _ | d
  · simp [keysOf, hglobal]
  · simp [keysOf, document?, hdocuments]
  · simp [keysOf, modifyDocument, hglobal]
  · have hn : n.index < c.documents.size := h
    simp only [keysOf, document?, modifyDocument, hdocuments, Array.getElem?_modify,
      Option.some.injEq]
    by_cases hnd : n = d
    · subst hnd
      simp [Array.getElem?_eq_getElem hn]
    · have hindex : n.index ≠ d.index := fun hi => hnd (by cases n; cases d; exact congrArg _ hi)
      simp [hnd, hindex]

/-- There is no scope to register a key in. -/
theorem keysOf_registerKey_of_not_hasList (h : ¬ c.HasList document) (d : Option DocumentId) :
    (c.registerKey document key id).keysOf d = c.keysOf d := by
  obtain ⟨warned, hdocuments, hglobal, he⟩ := c.exists_registerKey document key id
  rw [he]
  rcases document with _ | n
  · exact absurd trivial h
  have hn : warned.documents.size ≤ n.index := by rw [hdocuments]; exact Nat.le_of_not_lt h
  rcases d with _ | d
  · exact hglobal
  · simp only [keysOf, document?, modifyDocument, Array.getElem?_modify]
    split
    · rename_i hi
      rw [← hi, Array.getElem?_eq_none hn, ← hdocuments, Array.getElem?_eq_none hn]
      rfl
    · rw [hdocuments]

/-! ## The latest definitions -/

/-- The definition stands under the key, in the document or in none. -/
def IsUnder (c : Context) (document : Option DocumentId) (key : String) (x : DefinitionId) : Prop :=
  ∃ d, c.definition? x = some d ∧ d.key = some key ∧ d.document = document

/-- Of the definitions under the key, in the document or in none, this one was added last. -/
structure IsLatest (c : Context) (document : Option DocumentId) (key : String) (x : DefinitionId) :
    Prop where
  under : c.IsUnder document key x
  last : ∀ y, c.IsUnder document key y → y.index ≤ x.index

/-- The keys of every scope lead to the definitions that were added last. -/
def IsIndexed (c : Context) : Prop :=
  ∀ document key x, (c.keysOf document).get? key = some x ↔ c.IsLatest document key x

theorem IsUnder.index_lt (h : c.IsUnder document key x) : x.index < c.definitions.size := by
  obtain ⟨d, hd, -, -⟩ := h
  exact index_lt_of_definition? hd

/-- Of the definitions under a key there is a last one. -/
theorem IsUnder.exists_isLatest (h : c.IsUnder document key x) :
    ∃ y, c.IsLatest document key y := by
  generalize hn : c.definitions.size - x.index = n
  induction n using Nat.strong_induction_on generalizing x with
  | _ n ih =>
    by_cases hlast : ∀ y, c.IsUnder document key y → y.index ≤ x.index
    · exact ⟨x, h, hlast⟩
    · push Not at hlast
      obtain ⟨y, hy, hlt⟩ := hlast
      have hsize := h.index_lt
      exact ih _ (by omega) hy rfl

theorem isLatest_congr (h : ∀ y, c'.IsUnder document key y ↔ c.IsUnder document key y) :
    c'.IsLatest document key x ↔ c.IsLatest document key x := by
  constructor
  · exact fun hx => ⟨(h x).1 hx.under, fun y hy => hx.last y ((h y).2 hy)⟩
  · exact fun hx => ⟨(h x).2 hx.under, fun y hy => hx.last y ((h y).1 hy)⟩

/-- A definition stays under its key, and comes under no other. -/
theorem Recalls.isUnder_iff (hr : Recalls c c') (hx : (c.definition? x).isSome) :
    c'.IsUnder document key x ↔ c.IsUnder document key x := by
  obtain ⟨d, hd⟩ := Option.isSome_iff_exists.1 hx
  obtain ⟨d', hd', hkey, hdocument, -⟩ := hr x d hd
  simp only [IsUnder, hd, hd', Option.some.injEq, exists_eq_left', hkey, hdocument]

/-- Nothing is added, and definitions stay under their keys. -/
theorem isUnder_iff_of_recalls (hr : Recalls c c')
    (hsize : c'.definitions.size = c.definitions.size) :
    c'.IsUnder document key x ↔ c.IsUnder document key x := by
  rcases hx : c.definition? x with _ | d
  · have hle : c.definitions.size ≤ x.index := Array.getElem?_eq_none_iff.1 hx
    constructor <;> (intro h; have hlt := h.index_lt; omega)
  · exact hr.isUnder_iff (by rw [hx]; rfl)

/-- A definition is added. -/
theorem isUnder_addDefinition (c : Context) (d : Definition) (document' : Option DocumentId) :
    (c.addDefinition d document').2.IsUnder document key x ↔
      x.index = c.definitions.size ∧ d.key = some key ∧ document' = document ∨
        c.IsUnder document key x := by
  rw [IsUnder, definition?_addDefinition]
  by_cases hx : x.index = c.definitions.size
  · have hold : ¬ c.IsUnder document key x := fun h => by
      have hlt := h.index_lt
      omega
    simp [hx, hold]
  · simp [hx, IsUnder]

namespace IsIndexed

variable (h : c.IsIndexed)
include h

theorem of_recalls (hr : Recalls c c') (hsize : c'.definitions.size = c.definitions.size)
    (hkeys : ∀ d, c'.keysOf d = c.keysOf d) : c'.IsIndexed := by
  intro document key x
  rw [hkeys, h document key x, isLatest_congr fun _ => isUnder_iff_of_recalls hr hsize]

theorem modifyDefinition {f : Definition → Definition} (hkey : ∀ d, (f d).key = d.key)
    (hdocument : ∀ d, (f d).document = d.document)
    (href : ∀ d, d.references <+: (f d).references) : (c.modifyDefinition id f).IsIndexed :=
  h.of_recalls (.modifyDefinition c hkey hdocument href) (Array.size_modify ..) fun d => by
    cases d <;> rfl

/-- A definition is added to a document there is, or to none: it is the latest one under its
    key. -/
theorem addDefinition (d : Definition) (hlist : c.HasList document) :
    (c.addDefinition d document).2.IsIndexed := by
  intro document' key x
  have hkeys : ((c.addDefinition d document).2.keysOf document').get? key =
      if d.key = some key ∧ document = document' then some ⟨c.definitions.size⟩
      else (c.keysOf document').get? key := by
    unfold Context.addDefinition
    rcases d.key with _ | own
    · simp only [reduceCtorEq, false_and, if_false]
      cases document' <;> rfl
    · refine Eq.trans (congrArg (fun keys => Index.get? keys key)
        (keysOf_registerKey hlist document')) ?_
      by_cases hdocument : document = document' <;> simp [hdocument]
  rw [hkeys]
  by_cases hnew : d.key = some key ∧ document = document'
  · rw [if_pos hnew]
    have hunder : ∀ y, (c.addDefinition d document).2.IsUnder document' key y ↔
        y.index = c.definitions.size ∨ c.IsUnder document' key y := fun y => by
      rw [isUnder_addDefinition, and_iff_left hnew]
    constructor
    · rintro ⟨⟩
      refine ⟨(hunder _).2 (Or.inl rfl), fun y hy => ?_⟩
      rcases (hunder y).1 hy with hy | hy
      · exact Nat.le_of_eq hy
      · exact Nat.le_of_lt hy.index_lt
    · intro hx
      have hle := hx.last ⟨c.definitions.size⟩ ((hunder _).2 (Or.inl rfl))
      rcases (hunder x).1 hx.under with hx | hx
      · cases x; cases hx; rfl
      · exact absurd hx.index_lt (Nat.not_lt.2 hle)
  · rw [if_neg hnew, h document' key x]
    refine (isLatest_congr fun y => ?_).symm
    rw [isUnder_addDefinition, or_iff_right fun hy => hnew hy.2]

/-- A part is added in the document of its parent. -/
theorem addChild (parent : DefinitionId) (key : Option String) (kind : DefinitionKind)
    (hlist : c.HasList ((c.definition? parent).bind Definition.document)) :
    (c.addChild parent key kind).2.IsIndexed := by
  have hadd := h.addDefinition { key, parent := some parent, kind } hlist
  unfold Context.addChild
  dsimp only
  split
  · exact hadd.modifyDefinition (fun _ => rfl) (fun _ => rfl) fun _ => List.prefix_rfl
  · exact hadd.of_recalls (.of_definitions rfl) rfl fun d => by cases d <;> rfl
  · exact hadd

theorem setSourceText (id : DefinitionId) (source : String) :
    (c.setSourceText id source).IsIndexed := by
  unfold Context.setSourceText
  split
  case h_4 => exact h.of_recalls (.of_definitions rfl) rfl fun d => by cases d <;> rfl
  case h_5 => exact h
  all_goals exact h.modifyDefinition (fun _ => rfl) (fun _ => rfl) fun _ => List.prefix_rfl

theorem atDepth (depth : Nat) : (c.atDepth depth).IsIndexed :=
  h.of_recalls (.of_definitions rfl) rfl fun d => by cases d <;> rfl

theorem addReference (definition user : DefinitionId) :
    (c.addReference definition user).IsIndexed :=
  h.modifyDefinition (fun _ => rfl) (fun _ => rfl) fun _ => List.prefix_append _ _

theorem setTarget (id target : DefinitionId) : (c.setTarget id target).IsIndexed := by
  rw [setTarget_eq]
  exact h.modifyDefinition (fun _ => rfl) (fun _ => rfl) fun _ => List.prefix_rfl

theorem modifyFootnotes (document : Option DocumentId) (f : FootnoteList → FootnoteList) :
    (c.modifyFootnotes document f).IsIndexed :=
  h.of_recalls (.of_definitions (c.definitions_modifyFootnotes document f))
    (by rw [definitions_modifyFootnotes]) (keysOf_of_core_eq (c.core_modifyFootnotes document f))

theorem modifyContent (id : DefinitionId) (f : Content → Content) :
    (c.modifyContent id f).IsIndexed := by
  rw [modifyContent_eq]
  exact h.modifyDefinition (fun _ => rfl) (fun _ => rfl) fun _ => List.prefix_rfl

end IsIndexed

theorem isIndexed_new (settings : Settings) : (new settings).IsIndexed := by
  intro document key x
  constructor
  · intro hx
    cases document <;> cases hx
  · rintro ⟨⟨d, hd, -⟩, -⟩
    cases hd

end Context

/-! ## Edits and passes -/

/-- An edit that names a document of the context leaves it indexed. -/
theorem Edit.staysIndexed {e : Edit} (he : e.FindsDocument c) (hlists : c.HasDocuments)
    (h : c.IsIndexed) : (e.apply c).IsIndexed := by
  cases e with
  | addDocument key name =>
    exact h.of_recalls (.of_definitions rfl) rfl (c.keysOf_addDocument key name)
  | setAuthor document author =>
    exact h.of_recalls (.of_definitions rfl) rfl (c.keysOf_modifyDocument document fun _ => rfl)
  | addVersion document language font =>
    have hadd := h.addDefinition { language := some language, font, kind := .section {} } he
    exact hadd.of_recalls (.of_definitions rfl) rfl (keysOf_modifyDocument _ document fun _ => rfl)
  | addSection parent key | addStanza parent key | addParagraph parent key
  | addPartReference parent key =>
    exact h.addChild parent key _ (hasList_bind_document hlists parent)
  | addDefinition d document => exact h.addDefinition d he
  | setSourceText id source => exact h.setSourceText id source
  | setLanguage | setFont =>
    exact h.modifyDefinition (fun _ => rfl) (fun _ => rfl) fun _ => List.prefix_rfl
  | addReference =>
    exact h.modifyDefinition (fun _ => rfl) (fun _ => rfl) fun _ => List.prefix_append _ _
  | setCommands | setFonts | registerAnalyzer | setSettings =>
    exact h.of_recalls (.of_definitions rfl) rfl fun d => by cases d <;> rfl

theorem composes_staysIndexed : Engine.Composes fun c c' => c.IsIndexed → c'.IsIndexed :=
  ⟨fun _ h => h, fun h h' hc => h' (h hc)⟩

/-- What any command does to a context leaves it indexed: the truth values that are made are
    global. -/
theorem permits_staysIndexed : Permits (fun _ => True) fun c c' => c.IsIndexed → c'.IsIndexed where
  toComposes := composes_staysIndexed
  warn _ _ h := h.of_recalls (.of_definitions rfl) rfl fun d => by cases d <;> rfl
  reference _ definition user h := h.addReference definition user
  number _ _ document h := h.modifyFootnotes document _
  boolean _ _ _ h := h.addDefinition _ trivial

/-- The command pass of a definition leaves the context indexed, however it ends. -/
theorem staysIndexed_handleCommands (n : Nat) (id : DefinitionId) :
    (Engine.handleCommands n id).Moves fun c c' => c.IsIndexed → c'.IsIndexed := by
  refine Engine.handleCommands_moves composes_staysIndexed
    (fun h hc => (h (hc.atDepth _)).atDepth _)
    (fun _ _ _ _ hc => (hc.addReference _ _).setTarget _ _)
    (fun n hh c id d content r c' hd _ h => ?_) n id
  exact Engine.resolveContent_moves permits_staysIndexed hh hd
    (fun _ _ _ hmoves hc => ((hmoves hc).modifyFootnotes _ _).modifyContent _ _) h

/-- The font pass of a definition leaves the context indexed, however it ends. -/
theorem staysIndexed_handleFonts (n : Nat) (id : DefinitionId) :
    (Engine.handleFonts n id).Moves fun c c' => c.IsIndexed → c'.IsIndexed := by
  intro c r c' hends h
  have hconverts := converts_handleFonts n id c r c' hends
  have hunresolved : ∀ (c : Context) d, c.unresolved.keysOf d = c.keysOf d :=
    fun c d => c.keysOf_core d
  refine h.of_recalls (.of_converts hconverts) (size_of_unresolved_eq hconverts.written) fun d => ?_
  rw [← hunresolved, hconverts.written, hunresolved]

/-- So does a call. -/
theorem Context.IsIndexed.call {call : Call} {r : Except Error Unit} (h : c.IsIndexed)
    (hends : call.Ends c r c') : c'.IsIndexed :=
  hends.moves composes_staysIndexed staysIndexed_handleCommands staysIndexed_handleFonts h

/-- The keys of every scope lead to the definitions that were added last, in every context that
    edits and calls lead to. -/
theorem Context.Reached.isIndexed {E : Context → Edit → Prop}
    {P : Context → Call → Except Error Unit → Prop} (hE : ∀ c e, E c e → e.FindsDocument c)
    (h : c.Reached E P) : c.IsIndexed := by
  induction h with
  | new settings => exact isIndexed_new settings
  | edit hc he ih => exact Edit.staysIndexed (hE _ _ he) (hc.hasDocuments hE) ih
  | call _ _ hends ih => exact ih.call hends

/-! ## Looking up -/

namespace Context.IsIndexed

variable (h : c.IsIndexed)
include h

/-- A key leads to a definition that has it, in the document or in none. -/
theorem exists_of_lookup? (hx : c.lookup? key document = some x) :
    ∃ d, c.definition? x = some d ∧ d.key = some key ∧
      (d.document = document ∨ d.document = none) := by
  rcases Option.or_eq_some_iff.1 hx with hx | ⟨-, hx⟩
  · obtain ⟨document, rfl, hx⟩ := Option.bind_eq_some_iff.1 hx
    obtain ⟨d, hd, hkey, hdocument⟩ := ((h _ _ _).1 hx).under
    exact ⟨d, hd, hkey, Or.inl hdocument⟩
  · obtain ⟨d, hd, hkey, hdocument⟩ := ((h none _ _).1 hx).under
    exact ⟨d, hd, hkey, Or.inr hdocument⟩

theorem get?_eq_none_iff : (c.keysOf document).get? key = none ↔
    ∀ y, ¬ c.IsUnder document key y := by
  constructor
  · intro hnone y hy
    obtain ⟨x, hx⟩ := hy.exists_isLatest
    rw [(h document key x).2 hx] at hnone
    cases hnone
  · intro hnone
    rw [Option.eq_none_iff_forall_not_mem]
    exact fun x hx => hnone x ((h document key x).1 hx).under

theorem lookup?_none_eq_some_iff :
    c.lookup? key none = some x ↔ c.IsLatest none key x :=
  h none key x

theorem lookup?_some_eq_some_iff {document : DocumentId} :
    c.lookup? key (some document) = some x ↔ c.IsLatest (some document) key x ∨
      (∀ y, ¬ c.IsUnder (some document) key y) ∧ c.IsLatest none key x := by
  rw [lookup?, Option.or_eq_some_iff, Option.bind_some, h, h.get?_eq_none_iff,
    show c.globalKeys = c.keysOf none from rfl, h]

theorem lookup?_eq_none_iff : c.lookup? key document = none ↔
    (∀ y, ¬ c.IsUnder document key y) ∧ ∀ y, ¬ c.IsUnder none key y := by
  rw [← h.get?_eq_none_iff, ← h.get?_eq_none_iff, lookup?, Option.or_eq_none_iff]
  cases document with
  | none => exact ⟨fun hnone => ⟨hnone.2, hnone.2⟩, fun hnone => ⟨rfl, hnone.2⟩⟩
  | some document => exact Iff.rfl

end Context.IsIndexed

/-- **A key leads to the definition that was added last.**  After any edits, whatever definitions
    they add, and any calls, the definition under a key, seen from a document, is the last of
    those that were added under this key in the document; if there is none, it is the last of
    those in the global scope.  Without a document the global scope alone counts.  What
    definitions are under a key and in a document is settled when they are added: no edit and no
    call, however it ends, moves one. -/
theorem lookup_latest (h : c.ReachedBy Edit.FindsDocument) :
    (∀ document key x, c.lookup? key (some document) = some x ↔
      c.IsLatest (some document) key x ∨
        (∀ y, ¬ c.IsUnder (some document) key y) ∧ c.IsLatest none key x) ∧
    (∀ key x, c.lookup? key none = some x ↔ c.IsLatest none key x) ∧
    (∀ document key, c.lookup? key document = none ↔
      (∀ y, ¬ c.IsUnder document key y) ∧ ∀ y, ¬ c.IsUnder none key y) ∧
    (∀ (e : Edit) y, (c.definition? y).isSome → ∀ document key,
      ((e.apply c).IsUnder document key y ↔ c.IsUnder document key y)) ∧
    ∀ (call : Call) r c', call.Ends c r c' → ∀ y, (c.definition? y).isSome → ∀ document key,
      (c'.IsUnder document key y ↔ c.IsUnder document key y) := by
  have hindexed : c.IsIndexed := Reached.isIndexed (fun _ _ he => he) h
  refine ⟨fun document key x => hindexed.lookup?_some_eq_some_iff,
    fun key x => hindexed.lookup?_none_eq_some_iff,
    fun document key => hindexed.lookup?_eq_none_iff,
    fun e y hy document key => (e.recalls c).isUnder_iff hy,
    fun call r c' hends y hy document key => hends.recalls.isUnder_iff hy⟩

/-- A key is taken in the global scope and in a document, a truth value is made in between, and
    then another stanza of the document takes the key. -/
theorem lookup_latest_of_interleaving :
    ∃ c : Context, c.ReachedBy Edit.FindsDocument ∧ c.lookup? "a" (some ⟨0⟩) = some ⟨4⟩ ∧
      c.lookup? "a" none = some ⟨1⟩ ∧ c.lookup? "True" (some ⟨0⟩) = some ⟨3⟩ ∧
      c.IsLatest (some ⟨0⟩) "a" ⟨4⟩ ∧ c.IsLatest none "a" ⟨1⟩ ∧ c.IsUnder (some ⟨0⟩) "a" ⟨2⟩ ∧
      c.IsLatest none "True" ⟨3⟩ ∧ ∀ y, ¬ c.IsUnder (some ⟨0⟩) "True" y := by
  let edits := [Edit.addDocument "d" "D", .addVersion ⟨0⟩ (.ofKnown .coptic) none,
    .addStandaloneStanza none (some "a") "x", .addStanza ⟨0⟩ (some "a") "\\true"]
  let c := (Call.commands ⟨2⟩).run 4 (edits.foldl Edit.apply (.new {}))
  let c' := (Edit.addStanza ⟨0⟩ (some "a") "y").apply c
  have hedits : (edits.foldl Edit.apply (.new {})).ReachedBy Edit.FindsDocument :=
    (Reached.new {}).edits (by decide +kernel)
  have hc : c.ReachedBy Edit.FindsDocument :=
    .call hedits trivial (Call.ends_run (by decide +kernel))
  have hc' : c'.ReachedBy Edit.FindsDocument := .edit hc trivial
  have ha : c'.lookup? "a" (some ⟨0⟩) = some ⟨4⟩ := by decide +kernel
  have hglobal : c'.lookup? "a" none = some ⟨1⟩ := by decide +kernel
  have htrue : c'.lookup? "True" (some ⟨0⟩) = some ⟨3⟩ := by decide +kernel
  obtain ⟨d, hd, hkey, hdocument⟩ :
      ∃ d ∈ c'.definition? ⟨2⟩, d.key = some "a" ∧ d.document = some ⟨0⟩ := by
    decide +kernel
  have hunder : c'.IsUnder (some ⟨0⟩) "a" ⟨2⟩ := ⟨d, hd, hkey, hdocument⟩
  have hloose : ∀ d ∈ c'.definition? ⟨3⟩, d.document ≠ some ⟨0⟩ := by decide +kernel
  obtain ⟨hsome, hnone, -⟩ := lookup_latest hc'
  have hlatest := ((hsome ⟨0⟩ "a" ⟨4⟩).1 ha).resolve_right fun hno => hno.1 _ hunder
  obtain ⟨hno, hboolean⟩ := ((hsome ⟨0⟩ "True" ⟨3⟩).1 htrue).resolve_left fun hlatest => by
    obtain ⟨d, hd, -, hdocument⟩ := hlatest.under
    exact hloose d hd hdocument
  exact ⟨c', hc', ha, hglobal, htrue, hlatest, (hnone "a" ⟨1⟩).1 hglobal, hunder, hboolean, hno⟩

end Rubric
