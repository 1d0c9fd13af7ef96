import GameCatalog.Proofs.NameReading
import Mathlib.Data.List.Forall2

/-!
# Reading filter blocks

A filter block is found by its first closing bracket and cut at every separator before
any condition is read.  Since a condition holds neither brackets nor separators, this
takes the same texts as reading the conditions one by one.  In a condition the operator
starts at the first operator character, and no operator that stands there is longer.
-/

namespace GameCatalog
namespace Reference

open Grammar

/-! ## Conditions -/

theorem pieces_dot (cs : List Char) : Text.pieces (· == '.') cs = cs.splitOn '.' := by
  rw [Text.pieces_eq_splitOnP, List.splitOn_eq_splitOnP]

theorem not_mem_of_name {name : String} (hname : Name name) {c : Char}
    (hc : isNameChar c = false) : c ∉ name.toList := by
  intro hmem
  have hchar := (isNameChar_iff c).mpr (hname.chars c hmem)
  rw [hc] at hchar
  contradiction

theorem filterPath_eq_ok_iff {offset : Nat} {text : List Char} {path : List String} :
    filterPath offset text = .ok path ↔ PathText text path := by
  have hall (names : List (List Char)) :
      (names.all fun n => !n.isEmpty && n.all isNameChar) = true ↔
        ∀ name ∈ names, Name (String.ofList name) := by
    simp [List.all_eq_true, name_ofList_iff]
  simp only [filterPath, pieces_dot]
  constructor
  · intro hread
    split at hread
    · contradiction
    · split at hread
      next hnames =>
        rw [hall] at hnames
        simp only [Except.ok.injEq] at hread
        subst hread
        constructor
        · simp
        · simpa using hnames
        · rw [toList_joined, map_toList_map_ofList]
          exact (List.intercalate_splitOn '.').symm
      next => contradiction
  · intro hparts
    rcases hparts with ⟨hne, hnames, htrimmed⟩
    have hsplit : (Text.trim text).splitOn '.' = path.map String.toList := by
      rw [htrimmed, toList_joined]
      apply List.splitOn_intercalate
      · intro name hname
        obtain ⟨name, hmem, rfl⟩ := List.mem_map.mp hname
        exact not_mem_of_name (hnames name hmem) (by decide)
      · simpa using hne
    have hnonempty : Text.trim text ≠ [] := by
      intro hnil
      have hmem : [] ∈ path.map String.toList := by
        rw [← hsplit, hnil, List.splitOn_nil]
        simp
      obtain ⟨name, hname, hempty⟩ := List.mem_map.mp hmem
      exact (hnames name hname).nonempty hempty
    rw [if_neg (by simpa using hnonempty), if_pos, hsplit, map_ofList_map_toList]
    rw [hall, hsplit]
    simpa using hnames

theorem length_symbol_le_two (op : FilterOp) : op.symbol.length ≤ 2 := by
  cases op <;> decide

/-- Every operator of two characters ends in an equals sign. -/
theorem length_symbol_le_one {op : FilterOp} {c : Char} {rest : List Char}
    (hstarts : op.symbol.toList <+: c :: rest) (hrest : c = '=' ∨ rest.head? ≠ some '=') :
    op.symbol.length ≤ 1 := by
  have hlong : ∀ first, op.symbol.toList = [first, '='] → first ≠ '=' → False := by
    intro first hsymbol hfirst
    rw [hsymbol, List.cons_prefix_cons] at hstarts
    obtain ⟨rfl, more, hmore⟩ := hstarts
    rw [← hmore] at hrest
    exact hrest.elim hfirst fun hne => hne rfl
  cases op with
  | present => decide
  | equal => decide
  | less => decide
  | greater => decide
  | notEqual => exact (hlong '!' rfl (by decide)).elim
  | atMost => exact (hlong '<' rfl (by decide)).elim
  | atLeast => exact (hlong '>' rfl (by decide)).elim

theorem operator?_less {rest : List Char} (hrest : rest.head? ≠ some '=') :
    operator? ('<' :: rest) = some (.less, rest) := by
  unfold operator?
  split <;> simp_all

theorem operator?_greater {rest : List Char} (hrest : rest.head? ≠ some '=') :
    operator? ('>' :: rest) = some (.greater, rest) := by
  unfold operator?
  split <;> simp_all

theorem longestOperator_of_operator? {text rest : List Char} {op : FilterOp}
    (hread : operator? text = some (op, rest)) : LongestOperator text op rest := by
  unfold operator? at hread
  split at hread <;>
    simp only [Option.some.injEq, Prod.mk.injEq, reduceCtorEq] at hread <;>
    obtain ⟨rfl, rfl⟩ := hread
  · exact ⟨by simp, rfl, fun other _ _ => length_symbol_le_two other⟩
  · exact ⟨by simp, rfl, fun other _ _ => length_symbol_le_two other⟩
  · exact ⟨by simp, rfl, fun other _ _ => length_symbol_le_two other⟩
  · next hother =>
    refine ⟨by simp, rfl, fun other _ hstarts => length_symbol_le_one hstarts (Or.inr ?_)⟩
    intro hhead
    obtain ⟨more, hmore⟩ := List.head?_eq_some_iff.mp hhead
    exact hother more hmore
  · next hother =>
    refine ⟨by simp, rfl, fun other _ hstarts => length_symbol_le_one hstarts (Or.inr ?_)⟩
    intro hhead
    obtain ⟨more, hmore⟩ := List.head?_eq_some_iff.mp hhead
    exact hother more hmore
  · exact ⟨by simp, rfl, fun other _ hstarts => length_symbol_le_one hstarts (Or.inl rfl)⟩

theorem operator?_of_longestOperator {text rest : List Char} {op : FilterOp}
    (hop : LongestOperator text op rest) : operator? text = some (op, rest) := by
  obtain ⟨hproper, rfl, hlongest⟩ := hop
  -- An operator of one character would be outdone by itself and an equals sign.
  have hends (longer : FilterOp) (hne : longer ≠ .present)
      (hsymbol : longer.symbol.toList = op.symbol.toList ++ ['='])
      (hlength : ¬ longer.symbol.length ≤ op.symbol.length) : rest.head? ≠ some '=' := by
    intro hhead
    obtain ⟨more, rfl⟩ := List.head?_eq_some_iff.mp hhead
    apply hlength
    apply hlongest longer hne
    rw [hsymbol]
    exact ⟨more, by simp⟩
  cases op with
  | present => contradiction
  | equal => rfl
  | notEqual => rfl
  | atMost => rfl
  | atLeast => rfl
  | less => exact operator?_less (hends .atMost (by simp) rfl (by decide))
  | greater => exact operator?_greater (hends .atLeast (by simp) rfl (by decide))

theorem operator?_eq_some_iff {text rest : List Char} {op : FilterOp} :
    operator? text = some (op, rest) ↔ LongestOperator text op rest :=
  ⟨longestOperator_of_operator?, operator?_of_longestOperator⟩

theorem head_of_longestOperator {text rest : List Char} {op : FilterOp}
    (hop : LongestOperator text op rest) :
    ∃ c more, text = c :: more ∧ isOperatorChar c = true := by
  obtain ⟨hproper, rfl, _⟩ := hop
  cases op with
  | present => contradiction
  | equal => exact ⟨'=', rest, rfl, rfl⟩
  | notEqual => exact ⟨'!', '=' :: rest, rfl, rfl⟩
  | less => exact ⟨'<', rest, rfl, rfl⟩
  | atMost => exact ⟨'<', '=' :: rest, rfl, rfl⟩
  | greater => exact ⟨'>', rest, rfl, rfl⟩
  | atLeast => exact ⟨'>', '=' :: rest, rfl, rfl⟩

theorem plain_iff (text : List Char) :
    (∀ c ∈ text, ¬ OperatorChar c) ↔ ∀ c ∈ text, (!isOperatorChar c) = true := by
  simp [← isOperatorChar_iff]

theorem condition_of_plain {offset : Nat} {text : List Char}
    (hplain : ∀ c ∈ text, ¬ OperatorChar c) :
    condition offset text =
      (filterPath offset text).map fun path => ⟨path, .present, none⟩ := by
  have htail : text.dropWhile (fun c => !isOperatorChar c) = [] :=
    List.dropWhile_eq_nil_iff.mpr ((plain_iff text).mp hplain)
  simp only [condition, htail, List.isEmpty_nil, if_true]

theorem cut_at_operator {before : List Char} {c : Char}
    (hplain : ∀ c ∈ before, ¬ OperatorChar c) (hc : isOperatorChar c = true)
    (more : List Char) :
    (before ++ c :: more).takeWhile (fun c => !isOperatorChar c) = before ∧
      (before ++ c :: more).dropWhile (fun c => !isOperatorChar c) = c :: more := by
  constructor
  · rw [List.takeWhile_append_of_pos ((plain_iff before).mp hplain),
      List.takeWhile_cons_of_neg (by simp [hc]), List.append_nil]
  · rw [List.dropWhile_append_of_pos ((plain_iff before).mp hplain),
      List.dropWhile_cons_of_neg (by simp [hc])]

theorem condition_of_operator {offset : Nat} {before tail rest : List Char}
    {op : FilterOp} (hplain : ∀ c ∈ before, ¬ OperatorChar c)
    (hop : LongestOperator tail op rest) :
    condition offset (before ++ tail) =
      (filterPath offset before).bind fun path =>
        if (Text.trim rest).isEmpty then
          .error ⟨.noFilterValue op,
            offset + Text.byteLength before + op.symbol.utf8ByteSize⟩
        else .ok ⟨path, op, some (String.ofList (Text.trim rest))⟩ := by
  obtain ⟨c, more, rfl, hc⟩ := head_of_longestOperator hop
  obtain ⟨hbefore, htail⟩ := cut_at_operator hplain hc more
  simp only [condition, hbefore, htail, List.isEmpty_cons, Bool.false_eq_true, if_false,
    operator?_of_longestOperator hop]

theorem condition_of_loneExclamation {offset : Nat} {before more : List Char}
    (hplain : ∀ c ∈ before, ¬ OperatorChar c) (hlone : operator? ('!' :: more) = none) :
    condition offset (before ++ '!' :: more) =
      .error ⟨.loneExclamation, offset + Text.byteLength before + 1⟩ := by
  obtain ⟨hbefore, htail⟩ := cut_at_operator hplain (c := '!') rfl more
  simp only [condition, hbefore, htail, List.isEmpty_cons, Bool.false_eq_true, if_false, hlone]

/-- Of the operator characters, only an exclamation mark is no operator by itself. -/
theorem eq_of_operator?_eq_none {c : Char} {more : List Char} (hc : isOperatorChar c = true)
    (hnone : operator? (c :: more) = none) : c = '!' := by
  rcases (isOperatorChar_iff c).mp hc with rfl | rfl | rfl | rfl
  · simp [operator?] at hnone
  · rfl
  · unfold operator? at hnone
    split at hnone <;> simp_all
  · unfold operator? at hnone
    split at hnone <;> simp_all

/-- At the first operator character of a condition stands an operator or a lone `!`. -/
theorem condition_cases (text : List Char) :
    (∀ c ∈ text, ¬ OperatorChar c) ∨
      (∃ before tail op rest, text = before ++ tail ∧ (∀ c ∈ before, ¬ OperatorChar c) ∧
        LongestOperator tail op rest) ∨
      ∃ before more, text = before ++ '!' :: more ∧ (∀ c ∈ before, ¬ OperatorChar c) ∧
        operator? ('!' :: more) = none := by
  cases hcut : Text.cutFirst? isOperatorChar text with
  | none =>
      exact .inl ((plain_iff text).mpr (by simpa using Text.cutFirst?_eq_none_iff.mp hcut))
  | some parts =>
      obtain ⟨before, more⟩ := parts
      obtain ⟨hbefore, c, hc, rfl⟩ := Text.exists_of_cutFirst?_eq_some hcut
      have hplain := (plain_iff before).mpr (by simpa using hbefore)
      cases hop : operator? (c :: more) with
      | none =>
          obtain rfl := eq_of_operator?_eq_none hc hop
          exact .inr (.inr ⟨before, more, rfl, hplain, hop⟩)
      | some found =>
          exact .inr (.inl ⟨before, c :: more, found.1, found.2, rfl, hplain,
            longestOperator_of_operator? hop⟩)

theorem condition_eq_ok_iff {offset : Nat} {text : List Char} {filter : Filter} :
    condition offset text = .ok filter ↔ ConditionText text filter := by
  constructor
  · intro hread
    rcases condition_cases text with
      hplain | ⟨before, tail, op, rest, rfl, hplain, hop⟩ | ⟨before, more, rfl, hplain, hlone⟩
    · rw [condition_of_plain hplain, map_eq_ok_iff] at hread
      obtain ⟨path, hpath, rfl⟩ := hread
      exact .present (filterPath_eq_ok_iff.mp hpath) hplain
    · rw [condition_of_operator hplain hop] at hread
      obtain ⟨path, hpath, hread⟩ := bind_eq_ok_iff.mp hread
      split at hread
      · contradiction
      next hvalue =>
        obtain rfl := Except.ok.inj hread
        exact .compared (filterPath_eq_ok_iff.mp hpath) hplain hop (by simpa using hvalue)
    · rw [condition_of_loneExclamation hplain hlone] at hread
      contradiction
  · intro hcondition
    cases hcondition with
    | present hpath hplain =>
        rw [condition_of_plain hplain, filterPath_eq_ok_iff.mpr hpath]
        rfl
    | compared hpath hplain hop hvalue =>
        rw [condition_of_operator hplain hop, filterPath_eq_ok_iff.mpr hpath]
        simp [Except.bind, hvalue]

theorem conditions_eq_ok_iff {offset : Nat} {texts : List (List Char)}
    {filters : List Filter} :
    conditions offset texts = .ok filters ↔ List.Forall₂ ConditionText texts filters := by
  induction texts generalizing offset filters with
  | nil =>
      rw [List.forall₂_nil_left_iff]
      simp [conditions, eq_comm]
  | cons text rest ih =>
      simp only [conditions, bind_eq_ok_iff, condition_eq_ok_iff, ih, pure, Except.pure,
        Except.ok.injEq, List.forall₂_cons_left_iff]
      constructor
      · intro hparts
        rcases hparts with ⟨filter, hfilter, others, hothers, rfl⟩
        exact ⟨filter, others, hfilter, hothers, rfl⟩
      · intro hparts
        rcases hparts with ⟨filter, others, hfilter, hothers, rfl⟩
        exact ⟨filter, hfilter, others, hothers, rfl⟩

/-! ## Filter blocks -/

theorem isSeparator_iff (c : Char) : isSeparator c = true ↔ c = '&' ∨ c = ',' := by
  simp [isSeparator]

/-- The text holds no bracket. -/
def NoBrackets (text : List Char) : Prop :=
  ∀ c ∈ text, c ≠ '[' ∧ c ≠ ']'

theorem noBrackets_append_iff {xs ys : List Char} :
    NoBrackets (xs ++ ys) ↔ NoBrackets xs ∧ NoBrackets ys :=
  List.forall_mem_append

theorem not_blockChar_iff {c : Char} :
    ¬ BlockChar c ↔ (c ≠ '[' ∧ c ≠ ']') ∧ isSeparator c = false := by
  rw [← Bool.not_eq_true, isSeparator_iff]
  simp only [BlockChar, not_or, ne_eq, and_assoc]

/-- A block's conditions are its pieces between separators. -/
theorem conditionsText_iff {body : List Char} {filters : List Filter} :
    ConditionsText body filters ↔
      NoBrackets body ∧ List.Forall₂ ConditionText (Text.pieces isSeparator body) filters := by
  constructor
  · intro hbody
    rw [Text.pieces_eq_splitOnP]
    induction hbody with
    | @last text filter hplain hcondition =>
        simp only [not_blockChar_iff] at hplain
        rw [List.splitOnP_eq_singleton fun c hc => (hplain c hc).2]
        exact ⟨fun c hc => (hplain c hc).1, .cons hcondition .nil⟩
    | @next text rest separator filter filters hplain hcondition hseparator hrest ih =>
        simp only [not_blockChar_iff] at hplain
        rw [List.splitOnP_append_cons_of_forall_mem (fun c hc => (hplain c hc).2) separator
          ((isSeparator_iff separator).mpr hseparator)]
        refine ⟨?_, .cons hcondition ih.2⟩
        rw [noBrackets_append_iff]
        refine ⟨fun c hc => (hplain c hc).1, List.forall_mem_cons.mpr ⟨?_, ih.1⟩⟩
        rcases hseparator with rfl | rfl <;> decide
  · intro hparts
    rcases hparts with ⟨hbody, hconditions⟩
    induction filters generalizing body with
    | nil =>
        rw [List.forall₂_nil_right_iff] at hconditions
        exact absurd hconditions (Text.pieces_ne_nil isSeparator body)
    | cons filter others ih =>
        obtain ⟨text, texts, hcondition, hothers, hpieces⟩ :=
          List.forall₂_cons_right_iff.mp hconditions
        obtain ⟨htext, ⟨rfl, rfl⟩ | ⟨separator, rest, rfl, hseparator, rfl⟩⟩ :=
          Text.cases_of_pieces_eq_cons hpieces
        · rw [List.forall₂_nil_left_iff.mp hothers]
          exact .last (fun c hc => not_blockChar_iff.mpr ⟨hbody c hc, htext c hc⟩) hcondition
        · rw [noBrackets_append_iff] at hbody
          exact .next (fun c hc => not_blockChar_iff.mpr ⟨hbody.1 c hc, htext c hc⟩) hcondition
            ((isSeparator_iff separator).mp hseparator)
            (ih (List.forall_mem_cons.mp hbody.2).2 hothers)

theorem exists_nameChar_of_pathText {text : List Char} {path : List String}
    (hpath : PathText text path) : ∃ c ∈ text, NameChar c := by
  obtain ⟨hne, hnames, htrimmed⟩ := hpath
  cases path with
  | nil => contradiction
  | cons name rest =>
      obtain ⟨hnonempty, hchars⟩ := hnames name (by simp)
      cases hname : name.toList with
      | nil => contradiction
      | cons c more =>
          refine ⟨c, Text.mem_of_mem_strip (p := Text.isBlank) ?_, hchars c (by simp [hname])⟩
          rw [← Text.trim, htrimmed, toList_joined, List.map_cons, hname,
            List.intercalate_cons_cons_left]
          simp

theorem exists_nameChar_of_conditionText {text : List Char} {filter : Filter}
    (hcondition : ConditionText text filter) : ∃ c ∈ text, NameChar c := by
  cases hcondition with
  | present hpath _ => exact exists_nameChar_of_pathText hpath
  | compared hpath _ _ _ =>
      obtain ⟨c, hmem, hc⟩ := exists_nameChar_of_pathText hpath
      exact ⟨c, List.mem_append_left _ hmem, hc⟩

/-- A filter block is never blank, since a condition starts with a path. -/
theorem trim_ne_nil_of_conditionsText {body : List Char} {filters : List Filter}
    (hbody : ConditionsText body filters) : Text.trim body ≠ [] := by
  have hchar : ∃ c ∈ body, NameChar c := by
    cases hbody with
    | last _ hcondition => exact exists_nameChar_of_conditionText hcondition
    | next _ hcondition _ _ =>
        obtain ⟨c, hmem, hc⟩ := exists_nameChar_of_conditionText hcondition
        exact ⟨c, List.mem_append_left _ hmem, hc⟩
  obtain ⟨c, hmem, hc⟩ := hchar
  intro hnil
  have hblank := Text.strip_eq_nil_iff.mp hnil c hmem
  rw [isBlank_of_nameChar hc] at hblank
  contradiction

/-- The block goes up to the first closing bracket. -/
theorem filterBlock_of_closed {before : Cursor} {body more : List Char}
    (hrest : (before.skip 1).rest = body ++ ']' :: more) (hbody : ']' ∉ body) :
    filterBlock before =
      if body.contains '[' then
        ((before.skip 1).skip (body.takeWhile (· != '[')).length).flaw .nestedFilters
      else if (Text.trim body).isEmpty then before.flaw .emptyFilters
      else
        (conditions (before.skip 1).offset (Text.pieces isSeparator body)).map fun filters =>
          (filters, (before.skip 1).skip (body.length + 1)) := by
  have hplain : ∀ c ∈ body, (c != ']') = true := by
    intro c hc
    rw [bne_iff_ne]
    intro heq
    subst heq
    exact hbody hc
  have htake : (before.skip 1).rest.takeWhile (· != ']') = body := by
    rw [hrest, List.takeWhile_append_of_pos hplain, List.takeWhile_cons_of_neg (by simp),
      List.append_nil]
  have hclosed : (before.skip 1).rest.contains ']' = true := by
    rw [hrest]
    simp
  simp only [filterBlock, htake, hclosed, Bool.not_true, Bool.false_eq_true, if_false]

theorem takes_block_iff {before after : Cursor} {body : List Char}
    (hopen : before.rest.head? = some '[') :
    before.Takes ('[' :: (body ++ [']'])) after ↔
      (∃ more, (before.skip 1).rest = body ++ ']' :: more) ∧
        after = (before.skip 1).skip (body.length + 1) := by
  rw [Cursor.takes_cons_iff, Cursor.takes_iff_eq_skip]
  simp only [hopen, true_and, List.length_append, List.length_singleton]
  apply and_congr_left
  intro _
  constructor
  · intro hparts
    rcases hparts with ⟨more, hmore⟩
    exact ⟨more, by rw [← hmore]; simp⟩
  · intro hparts
    rcases hparts with ⟨more, hmore⟩
    exact ⟨more, by rw [hmore]; simp⟩

theorem filterBlock_eq_ok_iff {before after : Cursor} {filters : List Filter}
    (hopen : before.rest.head? = some '[') :
    filterBlock before = .ok (filters, after) ↔
      ∃ body, ConditionsText body filters ∧ before.Takes ('[' :: (body ++ [']'])) after := by
  simp only [takes_block_iff hopen]
  constructor
  · intro hread
    by_cases hclosed : ']' ∈ (before.skip 1).rest
    · obtain ⟨body, more, hrest, hbody⟩ := List.eq_append_cons_of_mem hclosed
      rw [filterBlock_of_closed hrest hbody] at hread
      split at hread
      · contradiction
      next hnested =>
        split at hread
        · contradiction
        · obtain ⟨filters', hconditions, heq⟩ := map_eq_ok_iff.mp hread
          obtain ⟨rfl, rfl⟩ := Prod.mk.inj heq
          refine ⟨body, conditionsText_iff.mpr ⟨?_, conditions_eq_ok_iff.mp hconditions⟩,
            ⟨more, hrest⟩, rfl⟩
          intro c hc
          constructor
          · intro heq
            subst heq
            exact hnested (by simpa using hc)
          · intro heq
            subst heq
            exact hbody hc
    · simp [filterBlock, hclosed, Cursor.flaw] at hread
  · intro hparts
    rcases hparts with ⟨body, hbody, ⟨more, hrest⟩, rfl⟩
    obtain ⟨hplain, hconditions⟩ := conditionsText_iff.mp hbody
    have hnested : ¬ body.contains '[' = true := by
      rw [List.contains_iff_mem]
      exact fun hmem => (hplain '[' hmem).1 rfl
    rw [filterBlock_of_closed hrest fun hmem => (hplain ']' hmem).2 rfl, if_neg hnested,
      if_neg (by simpa using trim_ne_nil_of_conditionsText hbody),
      conditions_eq_ok_iff.mpr hconditions]
    rfl

theorem filterBlock?_eq_ok_iff {before after : Cursor} {filters : List Filter} :
    filterBlock? before = .ok (filters, after) ↔
      ∃ taken, FiltersText taken filters ∧ before.Takes taken after ∧
        (taken = [] → after.rest.head? ≠ some '[') := by
  unfold filterBlock?
  by_cases hopen : before.rest.head? = some '['
  · rw [if_pos hopen, filterBlock_eq_ok_iff hopen]
    constructor
    · intro hparts
      rcases hparts with ⟨body, hbody, htakes⟩
      exact ⟨_, .block hbody, htakes, by simp⟩
    · intro hparts
      rcases hparts with ⟨taken, htaken, htakes, hstop⟩
      cases htaken with
      | absent =>
          rw [Cursor.takes_nil_iff] at htakes
          rw [htakes] at hstop
          exact absurd hopen (hstop rfl)
      | block hbody => exact ⟨_, hbody, htakes⟩
  · rw [if_neg hopen]
    simp only [Except.ok.injEq, Prod.mk.injEq]
    constructor
    · intro hparts
      rcases hparts with ⟨rfl, rfl⟩
      exact ⟨[], .absent, Cursor.takes_nil_iff.mpr rfl, fun _ => hopen⟩
    · intro hparts
      rcases hparts with ⟨taken, htaken, htakes, _⟩
      cases htaken with
      | absent => exact ⟨rfl, (Cursor.takes_nil_iff.mp htakes).symm⟩
      | block hbody => exact absurd (Cursor.takes_cons_iff.mp htakes).1 hopen

end Reference
end GameCatalog
