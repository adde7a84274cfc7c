import PgAgmemory.Recalling.Lexical
import PgAgmemory.Recalling.Offers

/-! # Complete recalls

A lexical recall fails to find exactly when a required reference is missing; otherwise it considers
all that is required and all that matches, and its flags say exactly what it leaves out. What a statement
of it sees are the rows that the query asks for (`Store.Offers`). -/

namespace PgAgmemory

open Interactive.Program (ReadOnly)

/-- **Completeness of a lexical recall**, for the candidates that its statements see. -/
structure RecallsCompletely (platform : Platform) (data : Recall)
    (required ranked covered : List Candidate) (result : Except Fault Response) : Prop where
  /-- It fails to find exactly when a required reference is not among the candidates. -/
  notFound : result = .error (.memory .notFound) ↔ ¬data.Present required
  /-- Otherwise its result is packed from what it considers, and complete up to its flags. -/
  answer : data.Present required → ∃ front others items,
    data.Considers platform required ranked front others
    ∧ List.Forall₂ data.ItemOf ((front.map Candidate.unranked ++ others).take data.maxItems) items
    ∧ ((∃ code, buildContext items data.tokenBudget front.length = .error code
        ∧ result = .error (.memory code))
      ∨ ∃ r, result = .ok (.recalled r) ∧ data.Completes platform ranked covered items r)

variable {platform : Platform} {s : Store} {principal : UUID} {timeline : Timeline} {data : Recall}

/-- The candidates of the required and of the ranking query. -/
theorem candidatesAt_agree (hs : Reachable platform s) (start k l : Nat) :
    ∀ c ∈ (Session.start principal s).candidatesAt timeline data start k
        ++ (Session.start principal s).candidatesAt timeline data start l,
      ∀ d ∈ (Session.start principal s).candidatesAt timeline data start k
          ++ (Session.start principal s).candidatesAt timeline data start l,
        c.id = d.id → c.revision = d.revision := by
  have hforeign := hs.sound.integrity.foreign
  have hunique := hs.sound.integrity.unique
  intro c hc d hd hid
  rcases List.mem_append.mp hc with hc | hc <;> rcases List.mem_append.mp hd with hd | hd <;>
    exact View.revision_unique (by rfl) hforeign hunique hc hd hid

/-- With the same readable scopes, two statements of a recall see the same candidates. -/
theorem candidatesAt_steady {start k l : Nat}
    (hsteady : ∀ scope, ((Session.start principal s).view (timeline.moment k)).permitted scope .read
      = ((Session.start principal s).view (timeline.moment l)).permitted scope .read) :
    (Session.start principal s).candidatesAt timeline data start k
      = (Session.start principal s).candidatesAt timeline data start l :=
  View.candidates_congr rfl hsteady

/-- The query of a recall call. -/
def Call.candidateQuery (c : Call) (s : Store) (data : Recall) : CandidateQuery :=
  data.candidateQuery ((Session.start c.principal s).view (c.timeline.moment 1)).timestamp

/-- The scopes that a statement of a call reads. -/
def Call.reads (c : Call) (s : Store) (n : Nat) (scope : UUID) : Prop :=
  ((Session.start c.principal s).view (c.timeline.moment n)).permitted scope .read = true

/-- **What a statement of a recall sees** is what its query asks for in the scopes that it reads. -/
theorem Call.mem_seen_iff (hs : Reachable platform s) {c : Call} {n : Nat} {d : Candidate} :
    d ∈ c.seen s data n ↔ s.Offers (c.reads s n) (c.candidateQuery s data) d :=
  View.mem_candidates_iff hs.sound.grounded

/-- A request that is recalled completely can be answered: no statement of it fails. -/
theorem Call.answerable_of_complete (hs : Reachable platform s) {c : Call}
    (hrequest : c.request = .«recall» data)
    (hknown : (s.access.principals.find? c.principal).isSome = true)
    (hcomplete : RecallsCompletely platform data (c.seen s data 2) (c.seen s data (data.rankingMoment 1))
      (c.seen s data (data.rankingMoment 1 + 1)) (c.exec platform s).1) :
    data.Answerable platform (c.seen s data 2) (c.seen s data (data.rankingMoment 1)) := by
  rcases Call.recall_cases platform hrequest hs.sound.integrity.deferred hknown with
    ⟨r, -, hanswerable, -⟩ | ⟨fault, hresult, hfails⟩
  · exact hanswerable
  have hunasked : fault = .unavailable ∨ fault = .database → False := by
    rintro hfault
    have hpresent : data.Present (c.seen s data 2) := by
      by_contra hmissing
      have hmissed := hcomplete.notFound.mpr hmissing
      rw [hresult] at hmissed
      rcases hfault with rfl | rfl <;> cases hmissed
    obtain ⟨_, _, _, -, -, ⟨code, -, herror⟩ | ⟨r, hok, -⟩⟩ := hcomplete.answer hpresent
    · rw [hresult] at herror
      rcases hfault with rfl | rfl <;> cases herror
    · rw [hresult] at hok
      cases hok
  cases hfails with
  | tokenizer h => exact (hunasked (Or.inl rfl)).elim
  | unanswerable h => exact (hunasked (Or.inr rfl)).elim
  | missing hanswerable _ => exact hanswerable
  | dangling _ hanswerable _ _ _ _ => exact hanswerable
  | packing _ hanswerable _ _ _ => exact hanswerable

/-- A lexical request that can be answered is recalled completely. -/
theorem Call.complete_of_answerable (hs : Reachable platform s) {c : Call}
    (hrequest : c.request = .«recall» data) (hlexical : data.retrievalMode = .lexical)
    (hknown : (s.access.principals.find? c.principal).isSome = true)
    (hanswerable : data.Answerable platform (c.seen s data 2) (c.seen s data (data.rankingMoment 1))) :
    RecallsCompletely platform data (c.seen s data 2) (c.seen s data (data.rankingMoment 1))
      (c.seen s data (data.rankingMoment 1 + 1)) (c.exec platform s).1 := by
  have hnodup : ((c.seen s data (data.rankingMoment 1)).map Candidate.id).Nodup :=
    View.nodup_candidates hs.sound.integrity.foreign hs.sound.integrity.unique
  have hagree : ∀ d ∈ c.seen s data 2 ++ c.seen s data (data.rankingMoment 1),
      ∀ d' ∈ c.seen s data 2 ++ c.seen s data (data.rankingMoment 1), d.id = d'.id →
        d.revision = d'.revision := candidatesAt_agree hs 1 2 (data.rankingMoment 1)
  rcases Call.recall_cases platform hrequest hs.sound.integrity.deferred hknown with
    ⟨r, hresult, -, text, items, omitted, htext, hrecalled⟩ | ⟨fault, hresult, hfails⟩
  · obtain ⟨hitems, hcompletes⟩ := hrecalled.completes hlexical htext hnodup hagree
      fun hsimple c hc => View.candidate_simple hsimple hc
    refine ⟨iff_of_false ?_ (not_not.mpr hrecalled.present), fun _ => ?_⟩
    · rw [hresult]
      intro h
      cases h
    · exact ⟨_, _, items, data.considers _ htext hrecalled.present, hitems,
        Or.inr ⟨r, hresult, hcompletes⟩⟩
  · cases hfails with
    | tokenizer h =>
      obtain ⟨text, htext, -⟩ := hanswerable.searched
      rw [htext] at h
      cases h
    | unanswerable hunanswerable => exact absurd hanswerable hunanswerable
    | missing _ hmissing =>
      exact ⟨iff_of_true hresult hmissing, fun hpresent => absurd hpresent hmissing⟩
    | dangling h _ hpresent hrow hsource htarget =>
      rw [data.rows_eq platform _ _ hpresent hlexical, take_lookahead] at hrow
      have hmem := (data.considers (c.seen s data (data.rankingMoment 1)) h hpresent).row_mem
        (List.mem_of_mem_take hrow)
      rcases List.mem_append.mp hmem with hmem | hmem <;>
        exact absurd htarget (Call.seen_target hs hmem hsource)
    | packing h _ hpresent hitems hbuild =>
      rw [data.rows_eq platform _ _ hpresent hlexical, take_lookahead] at hitems
      refine ⟨iff_of_false ?_ (not_not.mpr hpresent), fun _ => ?_⟩
      · rw [hresult]
        rcases (packsExactly _ _ _).failures _ hbuild with rfl | rfl <;>
          exact fun h => by cases h
      · exact ⟨_, _, _, data.considers _ h hpresent, hitems, Or.inl ⟨_, hbuild, hresult⟩⟩

/-- **A lexical recall is complete exactly when it can be answered**: its texts can be sent and its rows
decoded. Its three statements see what the query asks for in the scopes that they read, one revision of
each assertion; they see the same when the readable scopes stay the same. -/
theorem recall_complete_iff (hs : Reachable platform s) {c : Call}
    (hrequest : c.request = .«recall» data) (hlexical : data.retrievalMode = .lexical)
    (hknown : (s.access.principals.find? c.principal).isSome = true) :
    (RecallsCompletely platform data (c.seen s data 2) (c.seen s data (data.rankingMoment 1))
          (c.seen s data (data.rankingMoment 1 + 1)) (c.exec platform s).1
        ↔ data.Answerable platform (c.seen s data 2) (c.seen s data (data.rankingMoment 1)))
      ∧ (∀ k d, d ∈ c.seen s data k ↔ s.Offers (c.reads s k) (c.candidateQuery s data) d)
      ∧ (∀ k, ((c.seen s data k).map Candidate.id).Nodup)
      ∧ ((∀ k scope, ((Session.start c.principal s).view (c.timeline.moment k)).permitted scope .read
            = ((Session.start c.principal s).view (c.timeline.moment 1)).permitted scope .read) →
          ∀ k, c.seen s data k = c.seen s data 1) :=
  ⟨⟨Call.answerable_of_complete hs hrequest hknown,
      Call.complete_of_answerable hs hrequest hlexical hknown⟩,
    fun _ _ => Call.mem_seen_iff hs,
    fun _ => View.nodup_candidates hs.sound.integrity.foreign hs.sound.integrity.unique,
    fun hsteady k => candidatesAt_steady (hsteady k)⟩

/-! ## A character that the database cannot hold -/

/-- A search for a text in a scope, with a required reference. -/
def Recall.brief (query : Text 0 4096) : Recall where
  query := query
  scopeIds := [2]
  purpose := .brief
  asOf := some .late
  requiredMemoryRefs := [⟨107, .first⟩]
  vectors := by
    refine ⟨by decide, ?_, ?_⟩ <;> exact fun h => by cases h

/-- A call of the principal of the small tenant that recalls. -/
def Call.searching (query : Text 0 4096) : Call := ⟨1, .ticking 100 1000, .«recall» (.brief query)⟩

/-- The search for a text of the small tenant is complete: the required episode is in front, and the
assertion is not asked for. -/
theorem recall_complete_brief :
    RecallsCompletely .plain (.brief { str := "X" })
        (Call.seen (.searching { str := "X" }) .remembered (.brief { str := "X" }) 2)
        (Call.seen (.searching { str := "X" }) .remembered (.brief { str := "X" }) 3)
        (Call.seen (.searching { str := "X" }) .remembered (.brief { str := "X" }) 4)
        (Call.exec .plain (.searching { str := "X" }) .remembered).1
      ∧ ¬ ∃ d, d ∉ Call.seen (.searching { str := "X" }) .remembered (.brief { str := "X" }) 2
        ∧ Store.remembered.Offers (Call.reads (.searching { str := "X" }) .remembered 2)
          (Call.candidateQuery (.searching { str := "X" }) .remembered (.brief { str := "X" })) d := by
  have hrequest : (Call.searching { str := "X" }).request = .«recall» (.brief { str := "X" }) := rfl
  obtain ⟨hiff, hoffers, -, -⟩ :=
    recall_complete_iff reachable_remembered hrequest rfl (by decide +kernel)
  refine ⟨hiff.mpr (Recall.answerable rfl (by decide +kernel) (by decide +kernel)
    (by decide +kernel)), ?_⟩
  rintro ⟨d, hunseen, hoffered⟩
  exact hunseen ((hoffers 2 d).mpr hoffered)

/-- **A recall that is not complete**: the required reference is there, but the text has a character
that the database cannot hold. -/
theorem recall_not_complete :
    Reachable .plain (.observed none)
      ∧ Recall.Present (.brief { str := "\x00" })
        (Call.seen (.searching { str := "\x00" }) (.observed none) (.brief { str := "\x00" }) 2)
      ∧ ¬RecallsCompletely .plain (.brief { str := "\x00" })
          (Call.seen (.searching { str := "\x00" }) (.observed none) (.brief { str := "\x00" }) 2)
          (Call.seen (.searching { str := "\x00" }) (.observed none) (.brief { str := "\x00" }) 3)
          (Call.seen (.searching { str := "\x00" }) (.observed none) (.brief { str := "\x00" }) 4)
          (Call.exec .plain (.searching { str := "\x00" }) (.observed none)).1 := by
  have hpresent : Recall.Present (.brief { str := "\x00" })
      (Call.seen (.searching { str := "\x00" }) (.observed none) (.brief { str := "\x00" }) 2) := by
    unfold Recall.Present
    decide +kernel
  have hresult : (Call.exec .plain (.searching { str := "\x00" }) (.observed none)).1
      = .error .database := rfl
  refine ⟨reachable_observed none, hpresent, fun hcomplete => ?_⟩
  obtain ⟨_, _, _, -, -, ⟨code, -, herror⟩ | ⟨r, hok, -⟩⟩ := hcomplete.answer hpresent
  · rw [hresult] at herror
    cases herror
  · rw [hresult] at hok
    cases hok

end PgAgmemory
