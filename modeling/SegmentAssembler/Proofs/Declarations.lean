import SegmentAssembler.Proofs.RunRecords

/-!
# Declarations

The table of names is filled by two kinds of lines, labels and definitions,
and a line gets to it only if its name is new.  So the table that a program
ends with is the list of its declaring lines (`entries_names`), no name stands
in it twice (`nodup_keys_names`), and what a name stands for can be read off
the one line that declares it:

* `exists_declaration_of_get?` — a name that is found was declared on some
  line, at the address of that line;
* `eq_of_declaration_key` — no second line declares it.
-/

namespace SegmentAssembler

/-- The entry that a line adds to the table of names. -/
def Record.declaration? (r : Record) : Option (Text × Symbol) :=
  r.verdict.effect.declared?.map fun declared =>
    (Text.upper declared.1, ⟨declared.2, r.before.counter⟩)

/-- A name is free if its capital form is no key. -/
theorem SymbolTable.contains_eq_false_iff {t : SymbolTable} {name : Text} :
    t.contains name = false ↔ Text.upper name ∉ t.keys := by
  simp only [contains, get?, keys, Option.isSome_eq_false_iff, Option.isNone_iff_eq_none,
    List.lookup_eq_none_iff, List.mem_map, not_exists, not_and, bne_iff_ne]
  constructor
  · intro h entry hentry heq
    exact h entry hentry heq.symm
  · intro h entry hentry heq
    exact h entry hentry heq.symm

/-- What is found under a name is the entry of its capital form. -/
theorem SymbolTable.mem_entries_of_get? {t : SymbolTable} {name : Text} {symbol : Symbol}
    (h : t.get? name = some symbol) : (Text.upper name, symbol) ∈ t.entries := by
  obtain ⟨before, after, hentries, -⟩ := List.lookup_eq_some_iff.mp h
  rw [hentries]
  simp

/-- A declaration keeps the names apart. -/
theorem SymbolTable.nodup_keys_declare {t : SymbolTable} (ht : t.keys.Nodup) (name : Text)
    (symbol : Symbol) : (t.declare name symbol).keys.Nodup := by
  cases hcontains : t.contains name with
  | true => rwa [declare_of_contains hcontains]
  | false =>
      have hnew := contains_eq_false_iff.mp hcontains
      rw [keys, entries_declare_of_not_contains hcontains, List.map_append]
      refine List.nodup_append.mpr ⟨ht, by simp, ?_⟩
      intro key hkey key' hkey' heq
      obtain rfl : key' = Text.upper name := by simpa using hkey'
      exact hnew (heq ▸ hkey)

namespace State

/-- A line declares only what is not declared yet. -/
theorem Admits.free_of_declared? {s : State} {line : CodeLine} {e : Effect} {id : Text}
    {kind : Symbol.Kind} (h : s.Admits line e) (hdeclared : e.declared? = some (id, kind)) :
    s.names.contains id = false := by
  cases h with
  | labelled hphase hwords hname hfree =>
      simp only [Effect.declared?, Option.some.injEq, Prod.mk.injEq] at hdeclared
      rw [← hdeclared.1]
      exact hfree
  | defined hphase hwords hname hfree htop =>
      simp only [Effect.declared?, Option.some.injEq, Prod.mk.injEq] at hdeclared
      rw [← hdeclared.1]
      exact hfree
  | _ => cases hdeclared

/-- The names after a line: its declaration comes last. -/
theorem entries_next_scan (s : State) (line : CodeLine) :
    (s.scan line).next.names.entries =
      s.names.entries ++ (s.scan line).declaration?.toList := by
  have hadmits := judge_admits s line
  simp only [scan, Record.next, names_apply, namesAfter, Record.declaration?]
  cases hdeclared : (s.judge line).effect.declared? with
  | none => simp
  | some declared =>
      have hfree := hadmits.free_of_declared? hdeclared
      simp [SymbolTable.entries_declare_of_not_contains hfree]

/-- **The names of a run are the declarations on its lines.** -/
theorem entries_finish_run (s : State) (lines : List CodeLine) :
    (s.finish (s.run lines)).names.entries =
      s.names.entries ++ (s.run lines).filterMap Record.declaration? := by
  induction lines generalizing s with
  | nil => simp
  | cons line rest ih =>
      rw [run_cons, finish_cons, ih, entries_next_scan, List.filterMap_cons]
      cases (s.scan line).declaration? <;> simp

/-- A line keeps the names apart. -/
theorem nodup_keys_next_scan {s : State} (hs : s.names.keys.Nodup) (line : CodeLine) :
    (s.scan line).next.names.keys.Nodup := by
  simp only [scan, Record.next, names_apply, namesAfter]
  split
  · exact SymbolTable.nodup_keys_declare hs _ _
  · exact hs

/-- A run files no key twice. -/
theorem nodup_keys_finish_run {s : State} (hs : s.names.keys.Nodup) (lines : List CodeLine) :
    (s.finish (s.run lines)).names.keys.Nodup := by
  induction lines generalizing s with
  | nil => exact hs
  | cons line rest ih =>
      rw [run_cons, finish_cons]
      exact ih (nodup_keys_next_scan hs line)

end State

namespace Layout

variable {source : Text}

/-- **The names of a program are the declarations of its lines**, in their order. -/
theorem entries_names (source : Text) :
    (ofSource source).names.entries =
      (ofSource source).records.filterMap Record.declaration? := by
  have hentries := State.entries_finish_run {} (programLines (splitLines source))
  rw [List.nil_append] at hentries
  exact hentries

/-- No name is filed twice. -/
theorem nodup_keys_names (source : Text) : (ofSource source).names.keys.Nodup :=
  State.nodup_keys_finish_run (s := {}) List.nodup_nil _

/-- **A name that is found was declared**, at the address of the line that
declares it. -/
theorem exists_declaration_of_get? {name : Text} {symbol : Symbol}
    (h : (ofSource source).names.get? name = some symbol) :
    ∃ r ∈ (ofSource source).records, r.declaration? = some (Text.upper name, symbol) := by
  have hentry := SymbolTable.mem_entries_of_get? h
  rw [entries_names] at hentry
  exact List.mem_filterMap.mp hentry

/-- **No name is declared twice.** -/
theorem eq_of_declaration_key {r r' : Record} {key : Text} {symbol symbol' : Symbol}
    (hr : r ∈ (ofSource source).records) (hr' : r' ∈ (ofSource source).records)
    (h : r.declaration? = some (key, symbol)) (h' : r'.declaration? = some (key, symbol')) :
    r = r' := by
  have hkeys := nodup_keys_names source
  rw [SymbolTable.keys, entries_names, List.nodup_iff_pairwise_ne, List.pairwise_map,
    List.pairwise_filterMap] at hkeys
  -- of two different records, the earlier one rules the later one out
  refine List.Pairwise.forall_of_forall_of_flip
    (R := fun a b => ∀ k x y, a.declaration? = some (k, x) → b.declaration? = some (k, y) → a = b)
    ?_ (hkeys.imp ?_) (hkeys.imp ?_) hr hr' key symbol symbol' h h'
  · intro x _ _ _ _ _ _
    rfl
  · intro a b hne k x y ha hb
    exact (hne _ ha _ hb rfl).elim
  · intro a b hne k x y hb ha
    exact (hne _ ha _ hb rfl).elim

/-- A declared name stands for an address below the top. -/
theorem address_le_top_of_get? {name : Text} {symbol : Symbol}
    (h : (ofSource source).names.get? name = some symbol) : symbol.address ≤ topAddress := by
  obtain ⟨r, hr, hdeclaration⟩ := exists_declaration_of_get? h
  obtain ⟨declared, -, heq⟩ := Option.map_eq_some_iff.mp hdeclaration
  have haddress : r.before.counter = symbol.address :=
    congrArg (fun entry : Text × Symbol => entry.2.address) heq
  rw [← haddress]
  exact counter_le_top_of_mem_records hr

end Layout

end SegmentAssembler
