import GameCatalog.Proofs.ArchiveIndependence

/-!
# Requests to a session do not interfere

A session answers requests in turn.  Resolving a wildcard and drawing take numbers from
its stream, all other requests leave the stream alone.  So the replies to requests that
draw depend on those requests only, and the reply to any other request depends on the
request alone, apart from the counters of the archive.
-/

namespace GameCatalog

/-! ## Requests and replies -/

inductive Request where
  | resolve (text : String)
  | check (text : String)
  | draw (text : String) (count : Nat)
  | validate (keys : List CatalogKey)
  | generate (kind : GeneratorKind) (tier : Tier) (count : Nat)
  | invalidate
  | stats
  deriving DecidableEq

/-- Does the request resolve a wildcard or draw? -/
def Request.isDrawing : Request → Bool
  | .resolve text =>
      match Reference.parse text with
      | .ok r => r.isWildcard
      | .error _ => false
  | .draw _ _ => true
  | _ => false

structure Counters where
  cached : List CatalogKey
  hits : Nat
  misses : Nat
  loads : Nat
  parseFailures : Nat

def Archive.counters (archive : Archive) : Counters where
  cached := archive.cachedKeys
  hits := archive.hits
  misses := archive.misses
  loads := archive.loads
  parseFailures := archive.parseFailures

inductive Reply where
  | resolution (result : Except Fault Resolution)
  | diagnostic (result : Except Fault (Option Diagnostic))
  | drawn (result : Except Fault DrawOutcome)
  | reports (result : Except Fault (List CatalogReport))
  | entities (result : Except Fault (List String))
  | invalidated
  | stats (counters : Counters)

namespace Session

/-- The reply to a request, and the session after it. -/
def perform (session : Session) : Request → Reply × Session
  | .resolve text =>
      let (result, session) := resolve text session
      (.resolution result, session)
  | .check text =>
      let (result, session) := check text session
      (.diagnostic result, session)
  | .draw text count =>
      let (result, session) := draw text count session
      (.drawn result, session)
  | .validate keys =>
      let (result, session) := validate keys session
      (.reports result, session)
  | .generate kind tier count =>
      let (result, session) := generate kind tier count session
      (.entities result, session)
  | .invalidate => (.invalidated, session.invalidate)
  | .stats => (.stats session.archive.counters, session)

/-- The session after requests in turn. -/
def after (session : Session) : List Request → Session
  | [] => session
  | request :: rest => (session.perform request).2.after rest

/-- Requests in turn, each with its reply. -/
def transcript (session : Session) : List Request → List (Request × Reply)
  | [] => []
  | request :: rest =>
      (request, (session.perform request).1) ::
        (session.perform request).2.transcript rest

/-! ## Sessions alike -/

/-- The session's archive is faithful to the source, and these are its settings. -/
structure Serves (source : Source) (seed : UInt64) (logs : Bool) (session : Session) :
    Prop where
  faithful : session.archive.Faithful source
  seed_eq : session.seed = seed
  logs_eq : session.logs = logs

/-- Whatever a request does to the archive and the stream, the settings stay. -/
theorem Serves.update {source : Source} {seed : UInt64} {logs : Bool} {session : Session}
    (hserves : session.Serves source seed logs) {archive : Archive}
    (hfaithful : archive.Faithful source) (stream : RandomStream) :
    ({ session with archive := archive, stream := stream } : Session).Serves
      source seed logs :=
  ⟨hfaithful, hserves.seed_eq, hserves.logs_eq⟩

/-- Sessions with the same source and settings, and streams in the given relation. -/
structure Alike (source : Source) (seed : UInt64) (logs : Bool)
    (streams : RandomStream → RandomStream → Prop) (s t : Session) : Prop where
  left : s.Serves source seed logs
  right : t.Serves source seed logs
  streams : streams s.stream t.stream

variable {source : Source} {seed : UInt64} {logs : Bool}
  {streams : RandomStream → RandomStream → Prop}

theorem agrees_draw_of {α : Type} {action : DrawM α}
    (haction : Agrees (DrawState.Alike (Archive.Alike source source) streams) action) :
    Agrees (Alike source seed logs streams) (SessionM.draw action) := by
  intro s t halike
  obtain ⟨hs, ht, hstreams⟩ := halike
  obtain ⟨hanswer, hafter⟩ := haction ⟨s.archive, s.stream⟩ ⟨t.archive, t.stream⟩
    ⟨⟨hs.faithful, ht.faithful⟩, hstreams⟩
  exact ⟨hanswer, hs.update hafter.archives.1 _, ht.update hafter.archives.2 _,
    hafter.streams⟩

theorem agrees_consult_of {α : Type} {action : ArchiveM α}
    (haction : Agrees (Archive.Alike source source) action) :
    Agrees (Alike source seed logs streams) (SessionM.consult action) := by
  intro s t halike
  obtain ⟨hs, ht, hstreams⟩ := halike
  obtain ⟨hanswer, hafter⟩ := haction s.archive t.archive ⟨hs.faithful, ht.faithful⟩
  exact ⟨hanswer, hs.update hafter.1 s.stream, ht.update hafter.2 t.stream, hstreams⟩

theorem agrees_of_logs {α : Type} (action : Bool → SessionM α)
    (haction : Agrees (Alike source seed logs streams) (action logs)) :
    Agrees (Alike source seed logs streams) (do
      let session ← get
      action session.logs) := by
  intro s t halike
  have hrun (session : Session) :
      (do let session ← get; action session.logs : SessionM α) session =
        action session.logs session :=
    run_bind_ok rfl
  rw [hrun s, hrun t, halike.left.logs_eq, halike.right.logs_eq]
  exact haction s t halike

theorem agrees_resolve {text : String}
    (hquiet : (∃ r, Reference.parse text = .ok r ∧ r.isWildcard = true) → streams = Eq) :
    Agrees (Alike source seed logs streams) (resolve text) :=
  agrees_of_logs (fun logs => SessionM.draw (Resolver.resolve logs text))
    (agrees_draw_of (Resolver.agrees_resolve (Archive.respected_alike source) logs hquiet))

theorem agrees_check (text : String) : Agrees (Alike source seed logs streams) (check text) :=
  agrees_of_logs (fun logs => SessionM.consult (Resolver.check logs text))
    (agrees_consult_of (Resolver.agrees_check (Archive.respected_alike source) logs text))

theorem agrees_validate (keys : List CatalogKey) :
    Agrees (Alike source seed logs streams) (validate keys) := by
  unfold validate
  cases keys with
  | nil =>
      exact agrees_of_logs (fun logs => SessionM.consult (Resolver.validateAll logs))
        (agrees_consult_of (Resolver.agrees_validateAll logs source))
  | cons key rest =>
      exact agrees_of_logs
        (fun logs => SessionM.consult (Resolver.validateCatalogs logs (key :: rest)))
        (agrees_consult_of (Resolver.agrees_validateCatalogs (Archive.respected_alike source) logs
          (key :: rest)))

/-- A generator draws from a stream of its own. -/
theorem agrees_generate (kind : GeneratorKind) (tier : Tier) (count : Nat) :
    Agrees (Alike source seed logs streams) (generate kind tier count) := by
  intro s t halike
  obtain ⟨hs, ht, hstreams⟩ := halike
  have hseed : s.seed = t.seed := hs.seed_eq.trans ht.seed_eq.symm
  obtain ⟨hanswer, hafter⟩ := kind.agrees_generateMany (Archive.respected_alike source)
    kind.standardRecipe tier count
    ⟨s.archive, .seeded s.seed⟩ ⟨t.archive, .seeded t.seed⟩
    ⟨⟨hs.faithful, ht.faithful⟩, congrArg RandomStream.seeded hseed⟩
  have hentities := congrArg (Except.map (List.map Entity.describe)) hanswer
  exact ⟨hentities, hs.update hafter.archives.1 s.stream,
    ht.update hafter.archives.2 t.stream, hstreams⟩

theorem agrees_tally (items : List Item) (text : String) (count : Nat)
    (counts : List Nat) :
    Agrees (Alike source seed logs Eq) (tally items text count counts) := by
  induction count generalizing counts with
  | zero => exact agrees_pure _ _
  | succ count ih =>
      unfold tally
      apply Agrees.bind (agrees_resolve fun _ => rfl)
      intro resolution
      dsimp only
      split
      · exact ih _
      · exact ih _

theorem agrees_draw (text : String) (count : Nat) :
    Agrees (Alike source seed logs Eq) (draw text count) := by
  unfold draw
  cases Reference.parse text with
  | error flaw => exact agrees_pure _ _
  | ok r =>
      dsimp only
      split
      · exact fun _ _ halike => ⟨rfl, halike⟩
      · apply Agrees.bind (agrees_check text)
        intro diagnostic
        cases diagnostic with
        | some diagnostic => exact agrees_pure _ _
        | none =>
            apply Agrees.bind (agrees_consult_of (Resolver.agrees_candidates (Archive.respected_alike source) text))
            intro items
            split
            · exact agrees_pure _ _
            · apply Agrees.bind (agrees_tally _ text count _)
              exact fun counts => agrees_pure _ _

/-! ## Performing requests -/

/-- From alike sessions a request leads to alike sessions, and to the same reply unless
it asks for the counters.  If it does not draw, the streams may be any. -/
theorem perform_alike (request : Request) (hquiet : request.isDrawing = true → streams = Eq)
    {s t : Session} (halike : Alike source seed logs streams s t) :
    Alike source seed logs streams (s.perform request).2 (t.perform request).2 ∧
      (request ≠ .stats → (s.perform request).1 = (t.perform request).1) := by
  cases request with
  | resolve text =>
      have hresolve : Agrees (Alike source seed logs streams) (resolve text) := by
        apply agrees_resolve
        intro hwildcard
        obtain ⟨r, hread, hr⟩ := hwildcard
        apply hquiet
        rw [Request.isDrawing, hread]
        exact hr
      obtain ⟨hanswer, hafter⟩ := hresolve s t halike
      exact ⟨hafter, fun _ => congrArg Reply.resolution hanswer⟩
  | check text =>
      obtain ⟨hanswer, hafter⟩ := agrees_check text s t halike
      exact ⟨hafter, fun _ => congrArg Reply.diagnostic hanswer⟩
  | draw text count =>
      have heq := hquiet rfl
      subst heq
      obtain ⟨hanswer, hafter⟩ := agrees_draw text count s t halike
      exact ⟨hafter, fun _ => congrArg Reply.drawn hanswer⟩
  | validate keys =>
      obtain ⟨hanswer, hafter⟩ := agrees_validate keys s t halike
      exact ⟨hafter, fun _ => congrArg Reply.reports hanswer⟩
  | generate kind tier count =>
      obtain ⟨hanswer, hafter⟩ := agrees_generate kind tier count s t halike
      exact ⟨hafter, fun _ => congrArg Reply.entities hanswer⟩
  | invalidate =>
      obtain ⟨hs, ht, hstreams⟩ := halike
      have hs' := hs.update hs.faithful.invalidate s.stream
      have ht' := ht.update ht.faithful.invalidate t.stream
      exact ⟨⟨hs', ht', hstreams⟩, fun _ => rfl⟩
  | stats => exact ⟨halike, fun hne => absurd rfl hne⟩

theorem serves_start (source : Source) (seed : UInt64) (logs : Bool) :
    (start source seed logs).Serves source seed logs :=
  ⟨Archive.faithful_ofSource source, rfl, rfl⟩

/-- A request that does not draw leaves the stream where it was. -/
theorem perform_of_quiet {request : Request} (hquiet : request.isDrawing = false)
    {session : Session} (hserves : session.Serves source seed logs) :
    (session.perform request).2.Serves source seed logs ∧
      (session.perform request).2.stream = session.stream := by
  have halike : Alike source seed logs (fun stream _ => stream = session.stream)
      session session := ⟨hserves, hserves, rfl⟩
  have hafter := (perform_alike request (by simp [hquiet]) halike).1
  exact ⟨hafter.left, hafter.streams⟩

theorem Alike.perform_left {request : Request} (hquiet : request.isDrawing = false)
    {s t : Session} (halike : Alike source seed logs Eq s t) :
    Alike source seed logs Eq (s.perform request).2 t := by
  obtain ⟨hserves, hstream⟩ := perform_of_quiet hquiet halike.left
  exact ⟨hserves, halike.right, hstream.trans halike.streams⟩

theorem serves_perform {session : Session} (hserves : session.Serves source seed logs)
    (request : Request) : (session.perform request).2.Serves source seed logs := by
  have halike : Alike source seed logs Eq session session := ⟨hserves, hserves, rfl⟩
  exact (perform_alike request (fun _ => rfl) halike).1.left

/-! ## Runs of requests -/

/-- After a run a session is as after the requests of it that draw. -/
theorem Alike.after_filter {s t : Session} (halike : Alike source seed logs Eq s t)
    (requests : List Request) :
    Alike source seed logs Eq (s.after requests)
      (t.after (requests.filter Request.isDrawing)) := by
  induction requests generalizing s t with
  | nil => exact halike
  | cons request rest ih =>
      cases hdrawing : request.isDrawing with
      | true =>
          rw [List.filter_cons_of_pos hdrawing]
          exact ih (perform_alike request (fun _ => rfl) halike).1
      | false =>
          rw [List.filter_cons_of_neg (by simp [hdrawing])]
          exact ih (halike.perform_left hdrawing)

theorem ne_stats_of_isDrawing {request : Request} (hdrawing : request.isDrawing = true) :
    request ≠ .stats := by
  intro hstats
  rw [hstats] at hdrawing
  contradiction

theorem Alike.transcript_filter {s t : Session} (halike : Alike source seed logs Eq s t)
    (requests : List Request) :
    (s.transcript requests).filter (fun entry => entry.1.isDrawing) =
      t.transcript (requests.filter Request.isDrawing) := by
  induction requests generalizing s t with
  | nil => rfl
  | cons request rest ih =>
      cases hdrawing : request.isDrawing with
      | true =>
          obtain ⟨hafter, hreply⟩ := perform_alike request (fun _ => rfl) halike
          simp only [transcript, List.filter_cons, hdrawing, if_true]
          rw [ih hafter, hreply (ne_stats_of_isDrawing hdrawing)]
      | false =>
          simp only [transcript, List.filter_cons, hdrawing, Bool.false_eq_true, if_false]
          exact ih (halike.perform_left hdrawing)

theorem reply_of_quiet {request : Request} (hquiet : request.isDrawing = false)
    (hne : request ≠ .stats) {s t : Session} (hs : s.Serves source seed logs)
    (ht : t.Serves source seed logs) :
    (s.perform request).1 = (t.perform request).1 := by
  have halike : Alike source seed logs (fun _ _ => True) s t := ⟨hs, ht, trivial⟩
  exact (perform_alike request (by simp [hquiet]) halike).2 hne

theorem transcript_of_quiet {s t : Session} (hs : s.Serves source seed logs)
    (ht : t.Serves source seed logs) (requests : List Request) :
    ∀ entry ∈ s.transcript requests, entry.1.isDrawing = false → entry.1 ≠ .stats →
      entry.2 = (t.perform entry.1).1 := by
  induction requests generalizing s with
  | nil => simp [transcript]
  | cons request rest ih =>
      intro entry hentry hquiet hne
      rcases List.mem_cons.mp hentry with hfirst | hrest
      · subst hfirst
        exact reply_of_quiet hquiet hne hs ht
      · exact ih (serves_perform hs request) entry hrest hquiet hne

/-- The replies to requests that draw are those that these requests get among themselves;
the reply to any other request is that of a session that has done nothing yet.  So a
reply, counters apart, depends on what was asked before only through the requests that
draw. -/
theorem transcript_independent (source : Source) (seed : UInt64) (logs : Bool) :
    (∀ requests : List Request,
      ((start source seed logs).transcript requests).filter
          (fun entry => entry.1.isDrawing) =
        (start source seed logs).transcript (requests.filter Request.isDrawing)) ∧
    (∀ requests : List Request, ∀ entry ∈ (start source seed logs).transcript requests,
      entry.1.isDrawing = false → entry.1 ≠ .stats →
        entry.2 = ((start source seed logs).perform entry.1).1) ∧
    (∀ (before before' : List Request) (request : Request),
      before.filter Request.isDrawing = before'.filter Request.isDrawing →
      request ≠ .stats →
        (((start source seed logs).after before).perform request).1 =
          (((start source seed logs).after before').perform request).1) := by
  have hserves := serves_start source seed logs
  have halike : Alike source seed logs Eq (start source seed logs)
      (start source seed logs) := ⟨hserves, hserves, rfl⟩
  refine ⟨halike.transcript_filter, transcript_of_quiet hserves hserves, ?_⟩
  intro before before' request hsame hne
  have hbefore := halike.after_filter before
  have hbefore' := halike.after_filter before'
  rw [← hsame] at hbefore'
  have hboth : Alike source seed logs Eq ((start source seed logs).after before)
      ((start source seed logs).after before') :=
    ⟨hbefore.left, hbefore'.left, hbefore.streams.trans hbefore'.streams.symm⟩
  exact (perform_alike request (fun _ => rfl) hboth).2 hne

theorem transcript_independent_of_nested :
    [Request.check "@a/b:*", .resolve "@a/b:*", .generate .quest .rare 2, .invalidate].filter
        Request.isDrawing =
      [Request.stats, .resolve "@a/b:c", .resolve "@a/b:*"].filter Request.isDrawing ∧
    Request.draw "@a:*" 3 ≠ .stats ∧
    (((start Documents.nested.source 7 true).after
        [.check "@a/b:*", .resolve "@a/b:*", .generate .quest .rare 2, .invalidate]).perform
          (.draw "@a:*" 3)).1 =
      (((start Documents.nested.source 7 true).after
        [.stats, .resolve "@a/b:c", .resolve "@a/b:*"]).perform (.draw "@a:*" 3)).1 := by
  have hsame :
      [Request.check "@a/b:*", .resolve "@a/b:*", .generate .quest .rare 2, .invalidate].filter
          Request.isDrawing =
        [Request.stats, .resolve "@a/b:c", .resolve "@a/b:*"].filter Request.isDrawing := rfl
  refine ⟨hsame, by simp, ?_⟩
  exact (transcript_independent Documents.nested.source 7 true).2.2 _ _ _ hsame (by simp)

end Session
end GameCatalog
