import GameCatalog.Proofs.ComputationRuns
import GameCatalog.Proofs.ReferenceGrammar
import GameCatalog.Proofs.TextTrimming
import GameCatalog.Reference.Parser

/-!
# Reading names and items

Every reader takes a text from the front of what its cursor has left.  For each of them
an equivalence says which text it takes, what it makes of it, and where it stops: a run
of names ends only in front of a character that could not continue it.  These are the
equivalences for names, for chains of names behind separators, and for items.
-/

namespace GameCatalog
namespace Reference

open Grammar

/-! ## Characters -/

theorem isNameChar_iff (c : Char) : isNameChar c = true ↔ NameChar c := by
  have hread : isNameChar c =
      (((decide ('A' ≤ c ∧ c ≤ 'Z') || (decide ('a' ≤ c) && decide (c ≤ 'z'))) ||
        (decide ('0' ≤ c) && decide (c ≤ '9'))) || c == '_' || c == '-') := rfl
  simp only [hread, NameChar, Bool.or_eq_true, Bool.and_eq_true, decide_eq_true_eq,
    beq_iff_eq, or_assoc]

theorem isOperatorChar_iff (c : Char) : isOperatorChar c = true ↔ OperatorChar c := by
  simp [isOperatorChar, OperatorChar, or_assoc]

/-- Name characters lie between `-` and `z`. -/
theorem nameChar_range {c : Char} (hc : NameChar c) : 45 ≤ c.toNat ∧ c.toNat ≤ 122 := by
  rcases hc with ⟨hlow, hhigh⟩ | ⟨hlow, hhigh⟩ | ⟨hlow, hhigh⟩ | rfl | rfl
  · have hlow : 65 ≤ c.toNat := hlow
    have hhigh : c.toNat ≤ 90 := hhigh
    omega
  · have hlow : 97 ≤ c.toNat := hlow
    have hhigh : c.toNat ≤ 122 := hhigh
    omega
  · have hlow : 48 ≤ c.toNat := hlow
    have hhigh : c.toNat ≤ 57 := hhigh
    omega
  · decide
  · decide

theorem isBlank_of_nameChar {c : Char} (hc : NameChar c) : Text.isBlank c = false := by
  have hrange := nameChar_range hc
  simp only [Text.isBlank, Bool.or_eq_false_iff, Bool.and_eq_false_iff,
    decide_eq_false_iff_not, beq_eq_false_iff_ne]
  omega

theorem name_ofList_iff (run : List Char) :
    Name (String.ofList run) ↔ run ≠ [] ∧ ∀ c ∈ run, isNameChar c = true := by
  constructor
  · intro hname
    have hnonempty := hname.nonempty
    have hchars := hname.chars
    rw [String.toList_ofList] at hnonempty hchars
    exact ⟨hnonempty, fun c hc => (isNameChar_iff c).mpr (hchars c hc)⟩
  · intro hparts
    rcases hparts with ⟨hnonempty, hchars⟩
    constructor
    · rwa [String.toList_ofList]
    · rw [String.toList_ofList]
      exact fun c hc => (isNameChar_iff c).mp (hchars c hc)

/-! ## Cursors -/

/-- Taking that text leads from one cursor to the other. -/
structure Cursor.Takes (before : Cursor) (taken : List Char) (after : Cursor) :
    Prop where
  rest : before.rest = taken ++ after.rest
  offset : after.offset = before.offset + Text.byteLength taken

theorem Cursor.takes_nil_iff {before after : Cursor} :
    before.Takes [] after ↔ after = before := by
  constructor
  · intro hparts
    rcases hparts with ⟨hrest, hoffset⟩
    cases before
    cases after
    simp_all [Text.byteLength]
  · intro heq
    subst heq
    exact ⟨rfl, rfl⟩

theorem Cursor.takes_append_iff {before after : Cursor} {xs ys : List Char} :
    before.Takes (xs ++ ys) after ↔
      ∃ between, before.Takes xs between ∧ between.Takes ys after := by
  constructor
  · intro hparts
    rcases hparts with ⟨hrest, hoffset⟩
    rw [Text.byteLength_append] at hoffset
    refine ⟨⟨before.offset + Text.byteLength xs, ys ++ after.rest⟩, ⟨?_, rfl⟩, ⟨rfl, ?_⟩⟩
    · rw [hrest, List.append_assoc]
    · simpa [Nat.add_assoc] using hoffset
  · intro hparts
    rcases hparts with ⟨between, ⟨hrest, hoffset⟩, ⟨hrest', hoffset'⟩⟩
    constructor
    · rw [hrest, hrest', List.append_assoc]
    · rw [hoffset', hoffset, Text.byteLength_append, Nat.add_assoc]

theorem Cursor.Takes.append {before between after : Cursor} {xs ys : List Char}
    (hxs : before.Takes xs between) (hys : between.Takes ys after) :
    before.Takes (xs ++ ys) after :=
  Cursor.takes_append_iff.mpr ⟨between, hxs, hys⟩

theorem Cursor.takes_iff_eq_skip {before after : Cursor} {taken : List Char} :
    before.Takes taken after ↔
      taken <+: before.rest ∧ after = before.skip taken.length := by
  constructor
  · intro hparts
    rcases hparts with ⟨hrest, hoffset⟩
    refine ⟨⟨after.rest, hrest.symm⟩, ?_⟩
    cases after
    simp_all [Cursor.skip]
  · intro hparts
    rcases hparts with ⟨⟨rest, hrest⟩, rfl⟩
    constructor
    · simp [Cursor.skip, ← hrest]
    · simp [Cursor.skip, ← hrest]

theorem Cursor.takes_cons_iff {before after : Cursor} {c : Char} {taken : List Char} :
    before.Takes (c :: taken) after ↔
      before.rest.head? = some c ∧ (before.skip 1).Takes taken after := by
  rw [← List.singleton_append, Cursor.takes_append_iff]
  constructor
  · intro hparts
    rcases hparts with ⟨between, hfirst, hrest⟩
    have hskip := (Cursor.takes_iff_eq_skip.mp hfirst).2
    rw [List.length_singleton] at hskip
    subst hskip
    refine ⟨?_, hrest⟩
    rw [hfirst.rest]
    rfl
  · intro hparts
    rcases hparts with ⟨hhead, hrest⟩
    refine ⟨before.skip 1, Cursor.takes_iff_eq_skip.mpr ⟨?_, rfl⟩, hrest⟩
    cases hchars : before.rest with
    | nil => simp [hchars] at hhead
    | cons d rest =>
        have hd : d = c := by simpa [hchars] using hhead
        subst hd
        exact ⟨rest, rfl⟩

theorem Cursor.takes_skip {cursor : Cursor} {c : Char} (hhead : cursor.rest.head? = some c) :
    cursor.Takes [c] (cursor.skip 1) :=
  Cursor.takes_cons_iff.mpr ⟨hhead, Cursor.takes_nil_iff.mpr rfl⟩

theorem expect_eq_ok_iff {wanted : Char} {before after : Cursor} :
    expect wanted before = .ok after ↔ before.Takes [wanted] after := by
  rw [Cursor.takes_cons_iff, Cursor.takes_nil_iff]
  unfold expect
  cases hchars : before.rest with
  | nil => simp [Cursor.flaw]
  | cons c rest =>
      by_cases hc : c = wanted
      · simp [hc, eq_comm]
      · simp [hc, Cursor.flaw]

theorem Cursor.Takes.length_le {before after : Cursor} {taken : List Char}
    (htakes : before.Takes taken after) : after.rest.length ≤ before.rest.length := by
  rw [htakes.rest, List.length_append]
  exact Nat.le_add_left _ _

theorem Cursor.Takes.length_lt {before after : Cursor} {c : Char} {taken : List Char}
    (htakes : before.Takes (c :: taken) after) :
    after.rest.length < before.rest.length := by
  rw [htakes.rest, List.length_append, List.length_cons]
  omega

/-! ## Names -/

/-- A run of name characters cannot go on here. -/
def NameEnds (rest : List Char) : Prop :=
  ∀ c ∈ rest.head?, isNameChar c = false

theorem takeWhile_eq_nil_of_nameEnds {rest : List Char} (hends : NameEnds rest) :
    rest.takeWhile isNameChar = [] := by
  cases rest with
  | nil => rfl
  | cons c rest =>
      have hc : isNameChar c = false := hends c rfl
      rw [List.takeWhile_cons_of_neg (by simp [hc])]

theorem nameEnds_cons {c : Char} {rest : List Char} (hc : isNameChar c = false) :
    NameEnds (c :: rest) := by
  intro d hd
  have hcd : c = d := by simpa using hd
  rw [← hcd]
  exact hc

theorem nameEnds_behind {separator : Char} (hseparator : isNameChar separator = false)
    (names : List String) {rest : List Char} (hends : NameEnds rest) :
    NameEnds (behind separator names ++ rest) := by
  cases names with
  | nil => exact hends
  | cons name names =>
      rw [behind_cons, List.cons_append]
      exact nameEnds_cons hseparator

theorem nameRun_eq_iff {before after : Cursor} {run : List Char} :
    before.nameRun = (run, after) ↔
      (∀ c ∈ run, isNameChar c = true) ∧ before.Takes run after ∧ NameEnds after.rest := by
  unfold Cursor.nameRun
  constructor
  · intro hrun
    simp only [Prod.mk.injEq] at hrun
    obtain ⟨rfl, rfl⟩ := hrun
    refine ⟨fun c hc => List.all_eq_true.mp List.all_takeWhile c hc, ⟨?_, rfl⟩, ?_⟩
    · exact List.takeWhile_append_dropWhile.symm
    · exact Text.head?_dropWhile before.rest
  · intro hparts
    rcases hparts with ⟨hchars, ⟨hrest, hoffset⟩, hends⟩
    have htake : before.rest.takeWhile isNameChar = run := by
      rw [hrest, List.takeWhile_append_of_pos hchars,
        takeWhile_eq_nil_of_nameEnds hends, List.append_nil]
    have hdrop : before.rest.dropWhile isNameChar = after.rest := by
      rw [hrest, List.dropWhile_append_of_pos hchars]
      exact Text.dropWhile_eq_self_of_head hends
    simp only [htake, hdrop, ← hoffset]

theorem name_eq_ok_iff {missing : FlawCause} {before after : Cursor} {run : List Char} :
    name missing before = .ok (run, after) ↔
      Name (String.ofList run) ∧ before.Takes run after ∧ NameEnds after.rest := by
  have hname : name missing before = .ok (run, after) ↔
      run ≠ [] ∧ before.nameRun = (run, after) := by
    unfold name
    cases hrun : before.nameRun with
    | mk run' after' =>
        by_cases hempty : run' = []
        · subst hempty
          simp only [List.isEmpty_nil, if_true, Cursor.flaw, reduceCtorEq, Prod.mk.injEq,
            false_iff, not_and]
          exact fun hne heq => absurd heq.symm hne
        · simp only [List.isEmpty_iff, hempty, if_false, Except.ok.injEq, Prod.mk.injEq]
          constructor
          · intro hparts
            rcases hparts with ⟨rfl, rfl⟩
            exact ⟨hempty, rfl, rfl⟩
          · exact fun h => h.2
  rw [hname, nameRun_eq_iff, name_ofList_iff, and_assoc]

/-- Where no separator stands the chain is empty, whatever the fuel. -/
theorem chain_stop_iff {separator : Char} {missing : FlawCause} {fuel : Nat}
    {before after : Cursor} {names : List String}
    (hhead : before.rest.head? ≠ some separator) :
    chain separator missing fuel before = .ok (names, after) ↔
      (∀ name ∈ names, Name name) ∧ before.Takes (behind separator names) after ∧
        after.rest.head? ≠ some separator ∧ (names ≠ [] → NameEnds after.rest) := by
  have hchain : chain separator missing fuel before = .ok ([], before) := by
    cases fuel with
    | zero => rfl
    | succ fuel => rw [chain, if_neg hhead]
  rw [hchain]
  simp only [Except.ok.injEq, Prod.mk.injEq]
  constructor
  · intro hparts
    rcases hparts with ⟨rfl, rfl⟩
    simp [Cursor.takes_nil_iff, hhead]
  · intro hparts
    rcases hparts with ⟨_, htakes, _, _⟩
    cases names with
    | nil =>
        rw [behind_nil, Cursor.takes_nil_iff] at htakes
        exact ⟨rfl, htakes.symm⟩
    | cons first others =>
        rw [behind_cons, Cursor.takes_cons_iff] at htakes
        exact absurd htakes.1 hhead

/-- One round of the chain: a separator, a name up to its end, and the chain from there. -/
theorem chain_succ_eq_ok_iff {separator : Char} {missing : FlawCause} {fuel : Nat}
    {before after : Cursor} {names : List String}
    (hhead : before.rest.head? = some separator) :
    chain separator missing (fuel + 1) before = .ok (names, after) ↔
      ∃ first others between, names = first :: others ∧ Name first ∧
        before.Takes (separator :: first.toList) between ∧ NameEnds between.rest ∧
        chain separator missing fuel between = .ok (others, after) := by
  rw [chain]
  simp only [hhead, if_true, bind_eq_ok_iff, Prod.exists, pure, Except.pure,
    Except.ok.injEq, Prod.mk.injEq]
  constructor
  · intro hparts
    rcases hparts with ⟨run, between, hname, others, last, hothers, rfl, rfl⟩
    obtain ⟨hrun, htakes, hends⟩ := name_eq_ok_iff.mp hname
    refine ⟨String.ofList run, others, between, rfl, hrun, ?_, hends, hothers⟩
    rw [String.toList_ofList]
    exact Cursor.takes_cons_iff.mpr ⟨hhead, htakes⟩
  · intro hparts
    rcases hparts with ⟨first, others, between, rfl, hfirst, hstep, hends, hothers⟩
    have htakes := (Cursor.takes_cons_iff.mp hstep).2
    refine ⟨first.toList, between, name_eq_ok_iff.mpr ⟨?_, htakes, hends⟩, others, after,
      hothers, ?_, rfl⟩
    · rw [String.ofList_toList]
      exact hfirst
    · rw [String.ofList_toList]

/-- With fuel for every character left, the chain takes all names that follow. -/
theorem chain_eq_ok_iff {separator : Char} (hseparator : isNameChar separator = false)
    {missing : FlawCause} {fuel : Nat} {before after : Cursor} {names : List String}
    (hfuel : before.rest.length ≤ fuel) :
    chain separator missing fuel before = .ok (names, after) ↔
      (∀ name ∈ names, Name name) ∧ before.Takes (behind separator names) after ∧
        after.rest.head? ≠ some separator ∧ (names ≠ [] → NameEnds after.rest) := by
  induction fuel generalizing before after names with
  | zero =>
      have hnil : before.rest = [] := List.length_eq_zero_iff.mp (by omega)
      apply chain_stop_iff
      rw [hnil]
      simp
  | succ fuel ih =>
      by_cases hhead : before.rest.head? = some separator
      · rw [chain_succ_eq_ok_iff hhead]
        constructor
        · intro hparts
          rcases hparts with ⟨first, others, between, rfl, hfirst, hstep, hends, hothers⟩
          have hlength := hstep.length_lt
          obtain ⟨hnames, htakes, hstop, hends'⟩ := (ih (by omega)).mp hothers
          refine ⟨List.forall_mem_cons.mpr ⟨hfirst, hnames⟩, ?_, hstop, ?_⟩
          · rw [behind_cons, ← List.cons_append, Cursor.takes_append_iff]
            exact ⟨between, hstep, htakes⟩
          · intro _
            by_cases hnil : others = []
            · subst hnil
              rw [behind_nil, Cursor.takes_nil_iff] at htakes
              rw [htakes]
              exact hends
            · exact hends' hnil
        · intro hparts
          rcases hparts with ⟨hnames, htakes, hstop, hends⟩
          cases names with
          | nil =>
              rw [behind_nil, Cursor.takes_nil_iff] at htakes
              rw [htakes] at hstop
              contradiction
          | cons first others =>
              rw [behind_cons, ← List.cons_append, Cursor.takes_append_iff] at htakes
              obtain ⟨between, hstep, htakes⟩ := htakes
              obtain ⟨hfirst, hothers⟩ := List.forall_mem_cons.mp hnames
              have hlast : NameEnds after.rest := hends (by simp)
              have hbetween : NameEnds between.rest := by
                rw [htakes.rest]
                exact nameEnds_behind hseparator others hlast
              have hlength := hstep.length_lt
              exact ⟨first, others, between, rfl, hfirst, hstep, hbetween,
                (ih (by omega)).mpr ⟨hothers, htakes, hstop, fun _ => hlast⟩⟩
      · exact chain_stop_iff hhead

/-! ## Items -/

/-- A blank and the start of another word come next. -/
def WordFollows (rest : List Char) : Prop :=
  ∃ c more, rest = ' ' :: c :: more ∧ isNameChar c = true

/-- Neither a word nor a row of words can go on here. -/
def ItemEnds (rest : List Char) : Prop :=
  NameEnds rest ∧ ¬ WordFollows rest

/-- One round of reading words: the row goes on exactly if another word follows. -/
theorem itemWords_succ_eq_ok_iff {fuel : Nat} {before after : Cursor}
    {words : List (List Char)} :
    itemWords (fuel + 1) before = .ok (words, after) ↔
      ∃ run between, name .noItem before = .ok (run, between) ∧
        ((WordFollows between.rest ∧ ∃ others,
            itemWords fuel (between.skip 1) = .ok (others, after) ∧ words = run :: others) ∨
          (¬ WordFollows between.rest ∧ words = [run] ∧ after = between)) := by
  rw [itemWords, bind_eq_ok_iff, Prod.exists]
  apply exists_congr
  intro run
  apply exists_congr
  intro between
  apply and_congr_right
  intro _
  dsimp only
  split
  next c more hbetween =>
    by_cases hc : isNameChar c = true
    · have hfollows : WordFollows between.rest := ⟨c, more, hbetween, hc⟩
      simp only [hc, if_true, bind_eq_ok_iff, Prod.exists, pure, Except.pure,
        Except.ok.injEq, Prod.mk.injEq, hfollows, true_and, not_true_eq_false,
        false_and, or_false]
      constructor
      · intro hparts
        rcases hparts with ⟨others, last, hothers, rfl, rfl⟩
        exact ⟨others, hothers, rfl⟩
      · intro hparts
        rcases hparts with ⟨others, hothers, rfl⟩
        exact ⟨others, after, hothers, rfl, rfl⟩
    · have hstops : ¬ WordFollows between.rest := by
        intro hparts
        rcases hparts with ⟨d, more', hrest, hd⟩
        rw [hbetween] at hrest
        simp only [List.cons.injEq, true_and] at hrest
        rw [← hrest.1] at hd
        exact hc hd
      simp only [hc, if_false, pure, Except.pure, Except.ok.injEq, Prod.mk.injEq, hstops,
        false_and, not_false_eq_true, true_and, false_or, Bool.false_eq_true]
      exact and_congr eq_comm eq_comm
  next hbetween =>
    have hstops : ¬ WordFollows between.rest := by
      intro hparts
      rcases hparts with ⟨d, more, hrest, _⟩
      exact hbetween d more hrest
    simp only [pure, Except.pure, Except.ok.injEq, Prod.mk.injEq, hstops, false_and,
      not_false_eq_true, true_and, false_or]
    exact and_congr eq_comm eq_comm

theorem intercalate_words_eq_cons {words : List (List Char)} (hne : words ≠ [])
    (hwords : ∀ word ∈ words, Name (String.ofList word)) :
    ∃ c more, [' '].intercalate words = c :: more ∧ isNameChar c = true := by
  cases words with
  | nil => contradiction
  | cons first others =>
      obtain ⟨hfirst, hchars⟩ := (name_ofList_iff first).mp (hwords first (by simp))
      cases first with
      | nil => contradiction
      | cons c more =>
          exact ⟨c, _, List.intercalate_cons_cons_left, hchars c (by simp)⟩

/-- With fuel to spare for every character left, all words of the item are taken. -/
theorem itemWords_eq_ok_iff {fuel : Nat} {before after : Cursor}
    {words : List (List Char)} (hfuel : before.rest.length < fuel) :
    itemWords fuel before = .ok (words, after) ↔
      words ≠ [] ∧ (∀ word ∈ words, Name (String.ofList word)) ∧
        before.Takes ([' '].intercalate words) after ∧ ItemEnds after.rest := by
  induction fuel generalizing before after words with
  | zero => omega
  | succ fuel ih =>
      rw [itemWords_succ_eq_ok_iff]
      simp only [name_eq_ok_iff]
      constructor
      · intro hparts
        rcases hparts with ⟨run, between, ⟨hrun, htakes, hends⟩, hrest⟩
        rcases hrest with ⟨⟨c, more, hblank, hc⟩, others, hothers, rfl⟩ | ⟨hstops, rfl, rfl⟩
        · have hblankTakes : between.Takes [' '] (between.skip 1) := by
            rw [Cursor.takes_cons_iff, Cursor.takes_nil_iff, hblank]
            exact ⟨rfl, rfl⟩
          have hskip : before.Takes (run ++ [' ']) (between.skip 1) :=
            Cursor.takes_append_iff.mpr ⟨between, htakes, hblankTakes⟩
          have hlength := htakes.length_le
          have hlength' := hblankTakes.length_lt
          obtain ⟨hne, hwords, htakes', hends'⟩ := (ih (by omega)).mp hothers
          refine ⟨by simp, List.forall_mem_cons.mpr ⟨hrun, hwords⟩, ?_, hends'⟩
          rw [List.intercalate_cons_of_ne_nil hne, Cursor.takes_append_iff]
          exact ⟨between.skip 1, hskip, htakes'⟩
        · exact ⟨by simp, by simpa using hrun, by simpa using htakes, hends, hstops⟩
      · intro hparts
        rcases hparts with ⟨hne, hwords, htakes, hends⟩
        cases words with
        | nil => contradiction
        | cons first others =>
            obtain ⟨hfirst, hothers⟩ := List.forall_mem_cons.mp hwords
            by_cases hnil : others = []
            · subst hnil
              rw [List.intercalate_singleton] at htakes
              exact ⟨first, after, ⟨hfirst, htakes, hends.1⟩, Or.inr ⟨hends.2, rfl, rfl⟩⟩
            · rw [List.intercalate_cons_of_ne_nil hnil, List.append_assoc,
                Cursor.takes_append_iff] at htakes
              obtain ⟨between, htakes, hrow⟩ := htakes
              rw [List.singleton_append] at hrow
              have hfollows : WordFollows between.rest := by
                obtain ⟨c, more, hwords, hc⟩ := intercalate_words_eq_cons hnil hothers
                refine ⟨c, more ++ after.rest, ?_, hc⟩
                rw [hrow.rest, hwords, List.cons_append, List.cons_append]
              have hbetween : NameEnds between.rest := by
                rw [hrow.rest]
                exact nameEnds_cons (by decide)
              have hwords := (Cursor.takes_cons_iff.mp hrow).2
              have hskip := Cursor.takes_skip (Cursor.takes_cons_iff.mp hrow).1
              have hlength := htakes.length_le
              have hlength' := hskip.length_lt
              exact ⟨first, between, ⟨hfirst, htakes, hbetween⟩, Or.inl ⟨hfollows, others,
                (ih (by omega)).mpr ⟨hnil, hothers, hwords, hends⟩, rfl⟩⟩

theorem toList_joined (separator : String) (parts : List String) :
    (Text.joined separator parts).toList =
      separator.toList.intercalate (parts.map String.toList) :=
  String.toList_intercalate

theorem map_toList_map_ofList (parts : List (List Char)) :
    (parts.map String.ofList).map String.toList = parts := by
  simp [Function.comp_def]

theorem map_ofList_map_toList (parts : List String) :
    (parts.map String.toList).map String.ofList = parts := by
  simp [Function.comp_def]

theorem itemSelector_eq_ok_iff {before after : Cursor} {item : ItemSelector} :
    itemSelector before = .ok (item, after) ↔
      ∃ taken, ItemText taken item ∧ before.Takes taken after ∧
        (item = .wildcard ∨ ItemEnds after.rest) := by
  unfold itemSelector
  by_cases hhead : before.rest.head? = some '*'
  · simp only [hhead, if_true, Except.ok.injEq, Prod.mk.injEq]
    constructor
    · intro hparts
      rcases hparts with ⟨rfl, rfl⟩
      exact ⟨['*'], .wildcard, Cursor.takes_skip hhead, Or.inl rfl⟩
    · intro hparts
      rcases hparts with ⟨taken, hitem, htakes, _⟩
      cases hitem with
      | wildcard =>
          have hafter := Cursor.takes_nil_iff.mp (Cursor.takes_cons_iff.mp htakes).2
          exact ⟨rfl, hafter.symm⟩
      | @named words hne hwords =>
          -- A name does not start with a star.
          have hne' : words.map String.toList ≠ [] := by simpa using hne
          obtain ⟨c, more, htext, hc⟩ :=
            intercalate_words_eq_cons hne' (by simpa using hwords)
          rw [toList_joined, show " ".toList = [' '] from rfl, htext] at htakes
          rw [(Cursor.takes_cons_iff.mp htakes).1, Option.some.injEq] at hhead
          subst hhead
          contradiction
  · simp only [hhead, if_false, bind_eq_ok_iff, Prod.exists, pure, Except.pure,
      Except.ok.injEq, Prod.mk.injEq]
    constructor
    · intro hparts
      rcases hparts with ⟨words, last, hread, rfl, rfl⟩
      obtain ⟨hne, hwords, htakes, hends⟩ :=
        (itemWords_eq_ok_iff (Nat.lt_succ_self _)).mp hread
      refine ⟨_, @ItemText.named (words.map String.ofList) (by simpa using hne) ?_, ?_,
        Or.inr hends⟩
      · simpa using hwords
      · rw [toList_joined, map_toList_map_ofList]
        exact htakes
    · intro hparts
      rcases hparts with ⟨taken, hitem, htakes, hends⟩
      cases hitem with
      | wildcard => exact absurd (Cursor.takes_cons_iff.mp htakes).1 hhead
      | @named words hne hwords =>
          refine ⟨words.map String.toList, after, ?_, ?_, rfl⟩
          · rw [itemWords_eq_ok_iff (Nat.lt_succ_self _)]
            refine ⟨by simpa using hne, by simpa using hwords, ?_, ?_⟩
            · rw [toList_joined] at htakes
              exact htakes
            · exact hends.resolve_left (by simp)
          · rw [map_ofList_map_toList]

end Reference
end GameCatalog
