import GameCatalog.Proofs.ReferenceReading

/-!
# Where flaws are found

Every reader finds its flaws at its own start or behind parts that it has taken, so a flaw
stands at a character of the text or at the end.  What is in front of it has the form of a
reference that is broken off between two of its parts, and it can go on to a whole one.
Only a flaw in a filter block may stand behind another one: brackets and lone exclamation
marks are told before what is wrong in front of them.
-/

namespace GameCatalog
namespace Reference

open Grammar

/-! ## Positions of flaws -/

/-- The cursor has that text left to read, and the flaw stands right behind it. -/
structure FoundBehind (flaw : ReferenceFlaw) (cursor : Cursor) (read : List Char) : Prop where
  within : read <+: cursor.rest
  offset : flaw.offset = cursor.offset + Text.byteLength read

theorem FoundBehind.after {flaw : ReferenceFlaw} {before after : Cursor} {taken read : List Char}
    (htakes : before.Takes taken after) (hfound : FoundBehind flaw after read) :
    FoundBehind flaw before (taken ++ read) where
  within := by
    rw [htakes.rest, List.prefix_append_right_inj]
    exact hfound.within
  offset := by
    rw [hfound.offset, htakes.offset, Text.byteLength_append, Nat.add_assoc]

theorem FoundBehind.here {flaw : ReferenceFlaw} {before after : Cursor} {taken : List Char}
    (htakes : before.Takes taken after) (hfound : FoundBehind flaw after []) :
    FoundBehind flaw before taken := by
  simpa using hfound.after htakes

theorem foundBehind_nil {flaw : ReferenceFlaw} {cursor : Cursor}
    (hoffset : flaw.offset = cursor.offset) : FoundBehind flaw cursor [] :=
  ⟨List.nil_prefix, hoffset⟩

theorem foundBehind_of_flaw {α : Type} {cursor : Cursor} {cause : FlawCause}
    {flaw : ReferenceFlaw} (hflaw : (cursor.flaw cause : Except ReferenceFlaw α) = .error flaw) :
    FoundBehind flaw cursor [] := by
  obtain rfl := Except.error.inj hflaw
  exact foundBehind_nil rfl

/-! ## Flaws of names and items -/

theorem foundBehind_of_expect {wanted : Char} {cursor : Cursor} {flaw : ReferenceFlaw}
    (hread : expect wanted cursor = .error flaw) : FoundBehind flaw cursor [] := by
  unfold expect at hread
  split at hread
  · split at hread
    · contradiction
    · exact foundBehind_of_flaw hread
  · exact foundBehind_of_flaw hread

/-- A name is missing just where none starts. -/
theorem name_of_nameEnds {missing : FlawCause} {cursor : Cursor} (hends : NameEnds cursor.rest) :
    name missing cursor = cursor.flaw missing := by
  have hrun : cursor.nameRun = ([], cursor) :=
    nameRun_eq_iff.mpr ⟨by simp, Cursor.takes_nil_iff.mpr rfl, hends⟩
  rw [name, hrun]
  rfl

theorem exists_name_of_not_nameEnds (missing : FlawCause) {cursor : Cursor}
    (hstarts : ¬ NameEnds cursor.rest) :
    ∃ run after, name missing cursor = .ok (run, after) := by
  obtain ⟨run, after, hrun⟩ : ∃ run after, cursor.nameRun = (run, after) := ⟨_, _, rfl⟩
  obtain ⟨hchars, htakes, hends⟩ := nameRun_eq_iff.mp hrun
  refine ⟨run, after, name_eq_ok_iff.mpr ⟨(name_ofList_iff run).mpr ⟨?_, hchars⟩, htakes, hends⟩⟩
  rintro rfl
  rw [Cursor.takes_nil_iff] at htakes
  rw [htakes] at hends
  exact hstarts hends

theorem foundBehind_of_name {missing : FlawCause} {cursor : Cursor} {flaw : ReferenceFlaw}
    (hread : name missing cursor = .error flaw) : FoundBehind flaw cursor [] := by
  by_cases hends : NameEnds cursor.rest
  · rw [name_of_nameEnds hends] at hread
    exact foundBehind_of_flaw hread
  · obtain ⟨run, after, hok⟩ := exists_name_of_not_nameEnds missing hends
    rw [hok] at hread
    contradiction

/-- A chain is flawed behind a separator, where a name is missing. -/
theorem foundBehind_of_chain {separator : Char} {missing : FlawCause} {fuel : Nat}
    {cursor : Cursor} {flaw : ReferenceFlaw}
    (hread : chain separator missing fuel cursor = .error flaw) :
    ∃ names, (∀ name ∈ names, Name name) ∧
      FoundBehind flaw cursor (behind separator names ++ [separator]) := by
  induction fuel generalizing cursor with
  | zero => contradiction
  | succ fuel ih =>
      rw [chain] at hread
      split at hread
      next hhead =>
        have hskip := Cursor.takes_skip hhead
        rcases bind_eq_error_iff.mp hread with hname | ⟨⟨run, after⟩, hname, hread⟩
        · refine ⟨[], by simp, ?_⟩
          simpa using (foundBehind_of_name hname).after hskip
        · rcases bind_eq_error_iff.mp hread with hothers | ⟨_, _, hread⟩
          · obtain ⟨hrun, htakes, -⟩ := name_eq_ok_iff.mp hname
            obtain ⟨names, hnames, hfound⟩ := ih hothers
            refine ⟨String.ofList run :: names, List.forall_mem_cons.mpr ⟨hrun, hnames⟩, ?_⟩
            simpa using hfound.after (hskip.append htakes)
          · contradiction
      next => contradiction

theorem starts_of_wordFollows {cursor : Cursor} (hfollows : WordFollows cursor.rest) :
    ¬ NameEnds (cursor.skip 1).rest ∧ (cursor.skip 1).rest.length < cursor.rest.length := by
  obtain ⟨c, more, hrest, hc⟩ := hfollows
  have hskip : (cursor.skip 1).rest = c :: more := by simp [Cursor.skip, hrest]
  constructor
  · intro hends
    rw [hskip] at hends
    rw [hends c rfl] at hc
    contradiction
  · rw [hskip, hrest]
    simp

/-- Where a word starts, the words of an item are read without a flaw, since a blank counts
only in front of another word. -/
theorem exists_itemWords_of_not_nameEnds {fuel : Nat} {cursor : Cursor}
    (hfuel : cursor.rest.length < fuel) (hstarts : ¬ NameEnds cursor.rest) :
    ∃ words after, itemWords fuel cursor = .ok (words, after) := by
  induction fuel generalizing cursor with
  | zero => omega
  | succ fuel ih =>
      obtain ⟨run, between, hname⟩ := exists_name_of_not_nameEnds .noItem hstarts
      by_cases hfollows : WordFollows between.rest
      · have hlength := (name_eq_ok_iff.mp hname).2.1.length_le
        obtain ⟨hnext, hshorter⟩ := starts_of_wordFollows hfollows
        obtain ⟨others, after, hothers⟩ := ih (by omega) hnext
        exact ⟨_, _, itemWords_succ_eq_ok_iff.mpr
          ⟨run, between, hname, .inl ⟨hfollows, others, hothers, rfl⟩⟩⟩
      · exact ⟨_, _, itemWords_succ_eq_ok_iff.mpr
          ⟨run, between, hname, .inr ⟨hfollows, rfl, rfl⟩⟩⟩

theorem foundBehind_of_itemSelector {cursor : Cursor} {flaw : ReferenceFlaw}
    (hread : itemSelector cursor = .error flaw) : FoundBehind flaw cursor [] := by
  unfold itemSelector at hread
  split at hread
  · contradiction
  rcases bind_eq_error_iff.mp hread with hwords | ⟨_, _, hread⟩
  · by_cases hends : NameEnds cursor.rest
    · rw [itemWords, name_of_nameEnds hends] at hwords
      exact foundBehind_of_flaw hwords
    · obtain ⟨words, after, hok⟩ := exists_itemWords_of_not_nameEnds (Nat.lt_succ_self _) hends
      rw [hok] at hwords
      contradiction
  · contradiction

/-! ## Flaws of filter blocks -/

theorem FoundBehind.widen {flaw : ReferenceFlaw} {cursor : Cursor} {text read : List Char}
    (htext : text <+: cursor.rest) (hfound : FoundBehind flaw ⟨cursor.offset, text⟩ read) :
    FoundBehind flaw cursor read :=
  ⟨hfound.within.trans htext, hfound.offset⟩

theorem foundBehind_of_filterPath {offset : Nat} {text rest : List Char} {flaw : ReferenceFlaw}
    (hread : filterPath offset text = .error flaw) : FoundBehind flaw ⟨offset, rest⟩ [] := by
  unfold filterPath at hread
  dsimp only at hread
  split at hread
  · obtain rfl := Except.error.inj hread
    exact foundBehind_nil rfl
  · split at hread
    · contradiction
    · obtain rfl := Except.error.inj hread
      exact foundBehind_nil rfl

theorem foundBehind_of_condition {offset : Nat} {text : List Char} {flaw : ReferenceFlaw}
    (hread : condition offset text = .error flaw) :
    ∃ read, FoundBehind flaw ⟨offset, text⟩ read := by
  rcases condition_cases text with
    hplain | ⟨before, tail, op, rest, rfl, hplain, hop⟩ | ⟨before, more, rfl, hplain, hlone⟩
  · rw [condition_of_plain hplain, map_eq_error_iff] at hread
    exact ⟨[], foundBehind_of_filterPath hread⟩
  · rw [condition_of_operator hplain hop] at hread
    rcases bind_eq_error_iff.mp hread with hpath | ⟨path, -, hread⟩
    · exact ⟨[], foundBehind_of_filterPath hpath⟩
    split at hread
    · obtain rfl := Except.error.inj hread
      refine ⟨before ++ op.symbol.toList, ⟨rest, by rw [hop.text_eq, List.append_assoc]⟩, ?_⟩
      rw [Text.byteLength_append, Text.byteLength_toList, Nat.add_assoc]
    · contradiction
  · rw [condition_of_loneExclamation hplain hlone] at hread
    obtain rfl := Except.error.inj hread
    refine ⟨before ++ ['!'], ⟨more, by simp⟩, ?_⟩
    rw [Text.byteLength_append, ← Nat.add_assoc]
    rfl

theorem foundBehind_of_conditions {offset : Nat} {body : List Char} {flaw : ReferenceFlaw}
    (hread : conditions offset (Text.pieces isSeparator body) = .error flaw) :
    ∃ read, FoundBehind flaw ⟨offset, body⟩ read := by
  generalize hpieces : Text.pieces isSeparator body = texts at hread
  induction texts generalizing offset body with
  | nil => contradiction
  | cons text others ih =>
      obtain ⟨-, ⟨rfl, rfl⟩ | ⟨separator, rest, rfl, hseparator, rfl⟩⟩ :=
        Text.cases_of_pieces_eq_cons hpieces
      · rcases bind_eq_error_iff.mp hread with hcondition | ⟨_, -, hread⟩
        · exact foundBehind_of_condition hcondition
        · contradiction
      · rcases bind_eq_error_iff.mp hread with hcondition | ⟨_, -, hread⟩
        · obtain ⟨read, hfound⟩ := foundBehind_of_condition hcondition
          exact ⟨read, FoundBehind.widen (List.prefix_append text _) hfound⟩
        rcases bind_eq_error_iff.mp hread with hothers | ⟨_, -, hread⟩
        · obtain ⟨read, hfound⟩ := ih rfl hothers
          -- Separators take one byte.
          have hsize : Text.byteLength [separator] = 1 := by
            rcases (isSeparator_iff separator).mp hseparator with rfl | rfl <;> rfl
          have htakes : (⟨offset, text ++ separator :: rest⟩ : Cursor).Takes
              (text ++ [separator]) ⟨offset + Text.byteLength text + 1, rest⟩ := by
            constructor
            · simp
            · rw [Text.byteLength_append, hsize, Nat.add_assoc]
          exact ⟨_, hfound.after htakes⟩
        · contradiction

/-- The flaw of a closed block stands at its start, or behind its opening bracket and some
of its body. -/
theorem foundBehind_of_filterBlock {cursor : Cursor} {body more : List Char}
    {flaw : ReferenceFlaw} (hopen : cursor.rest.head? = some '[')
    (hrest : (cursor.skip 1).rest = body ++ ']' :: more) (hbody : ']' ∉ body)
    (hread : filterBlock cursor = .error flaw) :
    FoundBehind flaw cursor [] ∨
      ∃ inside, inside <+: body ∧ FoundBehind flaw cursor ('[' :: inside) := by
  have hskip := Cursor.takes_skip hopen
  have hwithin : body <+: (cursor.skip 1).rest := ⟨']' :: more, hrest.symm⟩
  rw [filterBlock_of_closed hrest hbody] at hread
  split at hread
  · have hinside : body.takeWhile (· != '[') <+: body := List.takeWhile_prefix _
    have htakes := Cursor.takes_iff_eq_skip.mpr ⟨hinside.trans hwithin, rfl⟩
    exact .inr ⟨_, hinside, (foundBehind_of_flaw hread).here (hskip.append htakes)⟩
  split at hread
  · exact .inl (foundBehind_of_flaw hread)
  · obtain ⟨inside, hfound⟩ := foundBehind_of_conditions (map_eq_error_iff.mp hread)
    exact .inr ⟨inside, hfound.within, (FoundBehind.widen hwithin hfound).after hskip⟩

theorem foundBehind_of_filterBlock? {cursor : Cursor} {flaw : ReferenceFlaw}
    (hread : filterBlock? cursor = .error flaw) :
    FoundBehind flaw cursor [] ∨
      ∃ inside, FoundBehind flaw cursor ('[' :: inside) ∧ ']' ∉ inside := by
  unfold filterBlock? at hread
  split at hread
  next hopen =>
    by_cases hclosed : ']' ∈ (cursor.skip 1).rest
    · obtain ⟨body, more, hrest, hbody⟩ := List.eq_append_cons_of_mem hclosed
      rcases foundBehind_of_filterBlock hopen hrest hbody hread with
        hfound | ⟨inside, hinside, hfound⟩
      · exact .inl hfound
      · exact .inr ⟨inside, hfound, fun hmem => hbody (hinside.mem hmem)⟩
    · have hflaw : filterBlock cursor = cursor.flaw .openFilters := by
        simp [filterBlock, hclosed]
      rw [hflaw] at hread
      exact .inl (foundBehind_of_flaw hread)
  next => contradiction

/-! ## Texts that go on to a reference -/

/-- Some text behind it makes a reference of it. -/
def Viable (read : List Char) : Prop :=
  ∃ more r, parse (String.ofList (read ++ more)) = .ok r

theorem viable_of_referenceText {read whole : List Char} {r : Reference}
    (htext : ReferenceText whole r) (more : List Char) (hmore : read ++ more = whole) :
    Viable read :=
  ⟨more, r, parse_of_referenceText (by rwa [String.toList_ofList, hmore])⟩

theorem Viable.shorten {read whole : List Char} (hread : read <+: whole)
    (hwhole : Viable whole) : Viable read := by
  obtain ⟨between, rfl⟩ := hread
  obtain ⟨more, r, hparse⟩ := hwhole
  rw [List.append_assoc] at hparse
  exact ⟨between ++ more, r, hparse⟩

/-- The domain and the steps of a reference, none perhaps. -/
structure PathParts (domain : String) (steps : List String) : Prop where
  domain_name : Name domain
  step_names : ∀ step ∈ steps, Name step

def pathText (domain : String) (steps : List String) : List Char :=
  '@' :: domain.toList ++ behind '/' steps

/-- The parts of a reference that stand in front of its mark and its properties. -/
structure TargetParts (domain : String) (steps : List String) (item filters : List Char) :
    Prop where
  path : PathParts domain steps
  nonempty : steps ≠ []
  item_text : ∃ selector, ItemText item selector
  filters_text : ∃ parsed, FiltersText filters parsed

def targetText (domain : String) (steps : List String) (item filters : List Char) :
    List Char :=
  pathText domain steps ++ ':' :: item ++ filters

/-- The texts behind which a part of a reference is read. -/
inductive Begun : List Char → Prop where
  | start : Begun []
  | sigil : Begun ['@']
  | path {domain : String} {steps : List String} (hpath : PathParts domain steps) :
      Begun (pathText domain steps)
  | step {domain : String} {steps : List String} (hpath : PathParts domain steps) :
      Begun (pathText domain steps ++ ['/'])
  | colon {domain : String} {steps : List String} (hpath : PathParts domain steps)
      (hne : steps ≠ []) : Begun (pathText domain steps ++ [':'])
  | target {domain : String} {steps property : List String} {item filters : List Char}
      (htarget : TargetParts domain steps item filters) (optional : Bool)
      (hproperty : ∀ name ∈ property, Name name) :
      Begun (targetText domain steps item filters ++ markText optional ++ behind '.' property)
  | property {domain : String} {steps property : List String} {item filters : List Char}
      (htarget : TargetParts domain steps item filters) (optional : Bool)
      (hproperty : ∀ name ∈ property, Name name) :
      Begun (targetText domain steps item filters ++ markText optional ++
        (behind '.' property ++ ['.']))

theorem TargetParts.exists_referenceText {domain : String} {steps property : List String}
    {item filters : List Char} (htarget : TargetParts domain steps item filters)
    (optional : Bool) (hproperty : ∀ name ∈ property, Name name) :
    ∃ r, ReferenceText
      (targetText domain steps item filters ++ markText optional ++ behind '.' property) r := by
  obtain ⟨⟨hdomain, hsteps⟩, hne, ⟨selector, hitem⟩, ⟨parsed, hfilters⟩⟩ := htarget
  obtain ⟨path, category, rfl⟩ := (List.eq_nil_or_concat' steps).resolve_left hne
  have htext := @ReferenceText.intro
    ⟨domain, path, category, selector, parsed, optional, property⟩ item filters hdomain hsteps
    hitem hfilters hproperty
  exact ⟨_, htext⟩

theorem name_a : Name "a" :=
  ⟨by decide, by simp [NameChar]⟩

theorem forall_name_concat {names : List String} (hnames : ∀ name ∈ names, Name name) :
    ∀ name ∈ names ++ ["a"], Name name :=
  List.forall_mem_append.mpr ⟨hnames, List.forall_mem_singleton.mpr name_a⟩

theorem behind_concat (separator : Char) (names : List String) (name : String) :
    behind separator (names ++ [name]) = behind separator names ++ separator :: name.toList := by
  simp [behind]

theorem viable_colon {domain : String} {steps : List String} (hpath : PathParts domain steps)
    (hne : steps ≠ []) : Viable (pathText domain steps ++ [':']) := by
  have htarget : TargetParts domain steps ['*'] [] := ⟨hpath, hne, ⟨_, .wildcard⟩, ⟨_, .absent⟩⟩
  obtain ⟨r, htext⟩ := htarget.exists_referenceText false (List.forall_mem_nil Name)
  refine viable_of_referenceText htext ['*'] ?_
  simp [targetText, markText]

theorem viable_step {domain : String} {steps : List String} (hpath : PathParts domain steps) :
    Viable (pathText domain steps ++ ['/']) := by
  have hlonger : PathParts domain (steps ++ ["a"]) :=
    ⟨hpath.domain_name, forall_name_concat hpath.step_names⟩
  refine (viable_colon hlonger (by simp)).shorten ⟨['a', ':'], ?_⟩
  simp [pathText, behind_concat]

theorem viable_property {domain : String} {steps property : List String}
    {item filters : List Char} (htarget : TargetParts domain steps item filters)
    (optional : Bool) (hproperty : ∀ name ∈ property, Name name) :
    Viable (targetText domain steps item filters ++ markText optional ++
      (behind '.' property ++ ['.'])) := by
  obtain ⟨r, htext⟩ := htarget.exists_referenceText optional (forall_name_concat hproperty)
  refine viable_of_referenceText htext ['a'] ?_
  simp [behind_concat]

theorem Begun.viable {read : List Char} (hbegun : Begun read) : Viable read := by
  have hpath : PathParts "a" [] := ⟨name_a, List.forall_mem_nil Name⟩
  cases hbegun with
  | start => exact (viable_step hpath).shorten List.nil_prefix
  | sigil => exact (viable_step hpath).shorten ⟨['a', '/'], rfl⟩
  | path hpath => exact (viable_step hpath).shorten (List.prefix_append _ _)
  | step hpath => exact viable_step hpath
  | colon hpath hne => exact viable_colon hpath hne
  | target htarget optional hproperty =>
      exact (viable_property htarget optional hproperty).shorten ⟨['.'], by simp⟩
  | property htarget optional hproperty => exact viable_property htarget optional hproperty

/-! ## Flaws of references -/

/-- A filter block is opened in the text and not closed again. -/
def EndsInBlock (read : List Char) : Prop :=
  ∃ front inside, read = front ++ '[' :: inside ∧ ']' ∉ inside

theorem foundBehind_of_finish {cursor : Cursor} {flaw : ReferenceFlaw}
    (hread : finish cursor = .error flaw) : FoundBehind flaw cursor [] := by
  unfold finish at hread
  split at hread
  · contradiction
  · exact foundBehind_of_flaw hread

/-- In front of a flaw a reference has begun, unless the flaw stands in a filter block. -/
theorem exists_read_of_flaw {text : String} {flaw : ReferenceFlaw}
    (hread : parse text = .error flaw) :
    ∃ read, FoundBehind flaw (Cursor.start text) read ∧ (Begun read ∨ EndsInBlock read) := by
  -- Reader by reader: either it finds the flaw, or it adds its part to what has been taken.
  rcases bind_eq_error_iff.mp hread with hstart | ⟨atDomain, hstart, hread⟩
  · exact ⟨[], foundBehind_of_expect hstart, .inl .start⟩
  have htaken := expect_eq_ok_iff.mp hstart
  rcases bind_eq_error_iff.mp hread with hdomain | ⟨⟨run, atSteps⟩, hdomain, hread⟩
  · exact ⟨_, (foundBehind_of_name hdomain).here htaken, .inl .sigil⟩
  obtain ⟨domain, rfl⟩ : ∃ domain : String, run = domain.toList :=
    ⟨String.ofList run, String.toList_ofList.symm⟩
  obtain ⟨hdomain, htakes, -⟩ := name_eq_ok_iff.mp hdomain
  rw [String.ofList_toList] at hdomain
  have htaken := htaken.append htakes
  rcases bind_eq_error_iff.mp hread with hsteps | ⟨⟨steps, atColon⟩, hsteps, hread⟩
  · obtain ⟨names, hnames, hfound⟩ := foundBehind_of_chain hsteps
    have hbegun := Begun.step ⟨hdomain, hnames⟩
    rw [pathText, List.append_assoc] at hbegun
    exact ⟨_, hfound.after htaken, .inl hbegun⟩
  obtain ⟨hsteps, htakes, -⟩ := (chain_eq_ok_iff (by decide) (le_refl _)).mp hsteps
  have hpath : PathParts domain steps := ⟨hdomain, hsteps⟩
  have htaken : (Cursor.start text).Takes (pathText domain steps) atColon := htaken.append htakes
  dsimp only at hread
  split at hread
  next => exact ⟨_, (foundBehind_of_flaw hread).here htaken, .inl (.path hpath)⟩
  next category hcategory =>
  have hne : steps ≠ [] := by
    rintro rfl
    contradiction
  rcases bind_eq_error_iff.mp hread with hcolon | ⟨atItem, hcolon, hread⟩
  · exact ⟨_, (foundBehind_of_expect hcolon).here htaken, .inl (.path hpath)⟩
  have hcolon := expect_eq_ok_iff.mp hcolon
  rcases bind_eq_error_iff.mp hread with hitem | ⟨⟨selector, atFilters⟩, hitem, hread⟩
  · exact ⟨_, (foundBehind_of_itemSelector hitem).here (htaken.append hcolon),
      .inl (.colon hpath hne)⟩
  obtain ⟨item, hitem, htakes, -⟩ := itemSelector_eq_ok_iff.mp hitem
  have htaken := htaken.append (hcolon.append htakes)
  rcases bind_eq_error_iff.mp hread with hfilters | ⟨⟨parsed, atMark⟩, hfilters, hread⟩
  · rcases foundBehind_of_filterBlock? hfilters with hfound | ⟨inside, hfound, hclosed⟩
    · -- In front of its block the reference is whole without one.
      have htarget : TargetParts domain steps item [] := ⟨hpath, hne, ⟨_, hitem⟩, ⟨_, .absent⟩⟩
      have hbegun := Begun.target htarget false (List.forall_mem_nil Name)
      refine ⟨_, hfound.here htaken, .inl ?_⟩
      simpa [targetText, markText] using hbegun
    · exact ⟨_, hfound.after htaken, .inr ⟨_, inside, rfl, hclosed⟩⟩
  obtain ⟨filters, hfilters, htakes, -⟩ := filterBlock?_eq_ok_iff.mp hfilters
  have htarget : TargetParts domain steps item filters :=
    ⟨hpath, hne, ⟨selector, hitem⟩, ⟨parsed, hfilters⟩⟩
  have htaken : (Cursor.start text).Takes (targetText domain steps item filters) atMark :=
    htaken.append htakes
  obtain ⟨optional, atProperty, hmark⟩ :
      ∃ optional atProperty, optionalMark atMark = (optional, atProperty) := ⟨_, _, rfl⟩
  have htaken := htaken.append (optionalMark_eq_iff.mp hmark).1
  dsimp only at hread
  rw [hmark] at hread
  rcases bind_eq_error_iff.mp hread with hproperty | ⟨⟨property, atEnd⟩, hproperty, hread⟩
  · obtain ⟨names, hnames, hfound⟩ := foundBehind_of_chain hproperty
    exact ⟨_, hfound.after htaken, .inl (.property htarget optional hnames)⟩
  obtain ⟨hproperty, htakes, -⟩ := (chain_eq_ok_iff (by decide) (le_refl _)).mp hproperty
  rcases bind_eq_error_iff.mp hread with hend | ⟨_, -, hread⟩
  · exact ⟨_, (foundBehind_of_finish hend).here (htaken.append htakes),
      .inl (.target htarget optional hproperty)⟩
  · contradiction

/-- A flaw stands at a character of the text or at its end.  If the text opens no filter
block, what is in front of the flaw goes on to a reference. -/
theorem flaw_points_into_text {text : String} {flaw : ReferenceFlaw}
    (hread : parse text = .error flaw) :
    flaw.offset ≤ text.utf8ByteSize ∧ (⟨flaw.offset⟩ : String.Pos.Raw).IsValid text ∧
      ∃ before after, text = before ++ after ∧ before.utf8ByteSize = flaw.offset ∧
        ('[' ∉ text.toList → ∃ more r, parse (before ++ more) = .ok r) := by
  obtain ⟨read, hfound, hbegun⟩ := exists_read_of_flaw hread
  obtain ⟨rest, hrest⟩ := hfound.within
  have htext : text = String.ofList read ++ String.ofList rest := by
    rw [← String.ofList_append, hrest]
    exact String.ofList_toList.symm
  have hsize : (String.ofList read).utf8ByteSize = flaw.offset := by
    rw [Text.utf8ByteSize_ofList, hfound.offset]
    simp [Cursor.start]
  refine ⟨?_, String.Pos.Raw.isValid_iff_exists_append.mpr ⟨_, _, htext, ?_⟩, _, _, htext, hsize, ?_⟩
  · rw [htext, String.utf8ByteSize_append, hsize]
    exact Nat.le_add_right _ _
  · rw [← hsize]
    rfl
  · intro hbracket
    rcases hbegun with hbegun | ⟨front, inside, rfl, -⟩
    · obtain ⟨more, r, hparse⟩ := hbegun.viable
      rw [String.ofList_append] at hparse
      exact ⟨String.ofList more, r, hparse⟩
    · rw [htext] at hbracket
      simp at hbracket

/-- A flaw in a filter block, behind a character of two bytes, and one without a block. -/
theorem flaw_points_into_text_accented :
    parse "@a/b:*[x=é,y!]" = .error ⟨.loneExclamation, 14⟩ ∧
      (⟨14⟩ : String.Pos.Raw).IsValid "@a/b:*[x=é,y!]" ∧
      parse "@a/b:c é" = .error ⟨.unexpected ' ', 6⟩ ∧
      ∃ before after, "@a/b:c é" = before ++ after ∧ before.utf8ByteSize = 6 ∧
        ∃ more r, parse (before ++ more) = .ok r := by
  have hinside : parse "@a/b:*[x=é,y!]" = .error ⟨.loneExclamation, 14⟩ := by decide +kernel
  have houtside : parse "@a/b:c é" = .error ⟨.unexpected ' ', 6⟩ := by decide +kernel
  obtain ⟨-, hvalid, -⟩ := flaw_points_into_text hinside
  obtain ⟨-, -, before, after, htext, hsize, hviable⟩ := flaw_points_into_text houtside
  exact ⟨hinside, hvalid, houtside, before, after, htext, hsize, hviable (by decide)⟩

end Reference
end GameCatalog
