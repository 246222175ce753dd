import Mathlib.Data.List.Forall2
import Mathlib.Data.Nat.Basic
import Mathlib.Logic.Function.Iterate
import Mathlib.Order.Basic
import Mathlib.Tactic.Common

/-!
# Following a log

A follower extends its store from a log that someone else keeps: it asks for the entries
from its own next index on, takes them one at a time, and asks again when the page is
used up.  Nothing is assumed of whoever answers, except in the last section.

* `Follow.step` — one step: a request, or one entry of the page; `Follow.run` — a number
  of steps, so that a statement about every run is one about every moment of it;
* `Follow.run_store` — what each entry taken keeps, a run keeps;
* `Follow.asked_run` — no index is asked for twice, as long as an entry that is taken
  either advances the index or leaves the store alone;
* `Follow.not_stuck_run` — no pass ends for want of progress if every entry advances it;
* `Follow.outcome_run` — what each outcome says of the store and of the last answer;
* `Follow.follows` — against a server that answers from a log whose next entry can
  always be taken, in whatever form the server tells it, the follower ends with the
  whole log.
-/

namespace Follow

variable {σ α ε : Type*}

/-- What a follower does with its store: the index its next request starts at, the
entries it refuses, and how it takes one that it does not refuse. -/
structure Follower (σ α ε : Type*) where
  next : σ → ℕ
  refuses : σ → α → Bool
  take : σ → α → Except ε σ

/-- How a pass ends: with an empty page, with a page that did not move the store, with
an entry refused, or with an exception, of an entry taken or of a request. -/
inductive Outcome (α ε : Type*) where
  | caughtUp
  | stuck
  | refused (a : α)
  | failed (a : α) (e : ε)
  | unanswered (e : ε)

/-- A pass under way: the store, what is left of the page, the indices asked for so far,
latest first, and the outcome once there is one. -/
structure Pass (σ α ε : Type*) where
  store : σ
  page : List α := []
  asked : List ℕ := []
  outcome : Option (Outcome α ε) := none

variable (F : Follower σ α ε) (serve : ℕ → ℕ → Except ε (List α))

/-- An entry of the page. -/
def entry (p : Pass σ α ε) (a : α) (rest : List α) : Pass σ α ε :=
  if F.refuses p.store a then { p with outcome := some (.refused a) }
  else
    match F.take p.store a with
    | .ok s => { p with store := s, page := rest }
    | .error e => { p with outcome := some (.failed a e) }

/-- A request, unless the index is the one of the request before.  `serve n i` is the
answer to the request number `n`, for the entries from `i` on. -/
def request (p : Pass σ α ε) : Pass σ α ε :=
  if p.asked.head? = some (F.next p.store) then { p with outcome := some .stuck }
  else
    match serve p.asked.length (F.next p.store) with
    | .error e => { p with asked := F.next p.store :: p.asked, outcome := some (.unanswered e) }
    | .ok page => { p with
        page := page
        asked := F.next p.store :: p.asked
        outcome := if page = [] then some .caughtUp else none }

/-- One step of a pass, which stays where it is once it has an outcome. -/
def step (p : Pass σ α ε) : Pass σ α ε :=
  match p.outcome, p.page with
  | some _, _ => p
  | none, [] => request F serve p
  | none, a :: rest => entry F p a rest

/-- The pass after `n` steps. -/
def run (n : ℕ) (s : σ) : Pass σ α ε := (step F serve)^[n] ⟨s, [], [], none⟩

/-! ## Steps -/

/-- What a step does to a pass that is under way. -/
inductive Moves (p : Pass σ α ε) : Pass σ α ε → Prop
  | refused {a : α} {rest : List α} (page : p.page = a :: rest) (h : F.refuses p.store a = true) :
      Moves p { p with outcome := some (.refused a) }
  | taken {a : α} {rest : List α} {s : σ} (page : p.page = a :: rest)
      (h : F.refuses p.store a = false) (taken : F.take p.store a = .ok s) :
      Moves p { p with store := s, page := rest }
  | failed {a : α} {rest : List α} {e : ε} (page : p.page = a :: rest)
      (h : F.refuses p.store a = false) (failed : F.take p.store a = .error e) :
      Moves p { p with outcome := some (.failed a e) }
  | stuck (page : p.page = []) (h : p.asked.head? = some (F.next p.store)) :
      Moves p { p with outcome := some .stuck }
  | unanswered {e : ε} (page : p.page = []) (h : p.asked.head? ≠ some (F.next p.store))
      (answer : serve p.asked.length (F.next p.store) = .error e) :
      Moves p { p with asked := F.next p.store :: p.asked, outcome := some (.unanswered e) }
  | caughtUp (page : p.page = []) (h : p.asked.head? ≠ some (F.next p.store))
      (answer : serve p.asked.length (F.next p.store) = .ok []) :
      Moves p { p with asked := F.next p.store :: p.asked, outcome := some .caughtUp }
  | answered {a : α} {rest : List α} (page : p.page = [])
      (h : p.asked.head? ≠ some (F.next p.store))
      (answer : serve p.asked.length (F.next p.store) = .ok (a :: rest)) :
      Moves p { p with page := a :: rest, asked := F.next p.store :: p.asked }

variable {F serve}

theorem step_moves {p : Pass σ α ε} (h : p.outcome = none) : Moves F serve p (step F serve p) := by
  obtain ⟨s, page, asked, outcome⟩ := p
  obtain rfl : outcome = none := h
  cases page with
  | cons a rest =>
    show Moves F serve _ (entry F _ a rest)
    unfold entry
    split_ifs with hrefuses
    · exact .refused rfl hrefuses
    · rw [Bool.not_eq_true] at hrefuses
      cases htake : F.take s a with
      | ok s' => exact .taken rfl hrefuses htake
      | error e => exact .failed rfl hrefuses htake
  | nil =>
    show Moves F serve _ (request F serve _)
    unfold request
    split_ifs with hasked
    · exact .stuck rfl hasked
    · cases hanswer : serve asked.length (F.next s) with
      | error e => exact .unanswered rfl hasked hanswer
      | ok page =>
        cases page with
        | nil => exact .caughtUp rfl hasked hanswer
        | cons a rest => exact .answered rfl hasked hanswer

theorem step_done {p : Pass σ α ε} {o : Outcome α ε} (h : p.outcome = some o) :
    step F serve p = p := by
  unfold step
  rw [h]

theorem run_succ (n : ℕ) (s : σ) : run F serve (n + 1) s = step F serve (run F serve n s) :=
  Function.iterate_succ_apply' ..

/-- **What each move keeps, a run keeps.** -/
theorem run_induction {motive : Pass σ α ε → Prop} {s : σ} (start : motive ⟨s, [], [], none⟩)
    (move : ∀ p p', motive p → p.outcome = none → Moves F serve p p' → motive p') (n : ℕ) :
    motive (run F serve n s) := by
  induction n with
  | zero => exact start
  | succ n ih =>
    rw [run_succ]
    cases ho : (run F serve n s).outcome with
    | none => exact move _ _ ih ho (step_moves ho)
    | some o =>
      rw [step_done ho]
      exact ih

/-! ## What holds against any server -/

section

variable {I : σ → Prop} {P : α → Prop} {s : σ}

/-- **An invariant of the store.**  `I` holds at every moment of a run if each entry that
is taken keeps it; of the entries, `P` is known. -/
theorem run_store (hserve : ∀ n i page, serve n i = .ok page → ∀ a ∈ page, P a)
    (htake : ∀ s a s', I s → P a → F.refuses s a = false → F.take s a = .ok s' → I s')
    (h : I s) (n : ℕ) : I (run F serve n s).store ∧ ∀ a ∈ (run F serve n s).page, P a := by
  refine run_induction (motive := fun p => I p.store ∧ ∀ a ∈ p.page, P a) ⟨h, by simp⟩
    (fun p p' ih _ hmove => ?_) n
  obtain ⟨hstore, hpage⟩ := ih
  cases hmove with
  | refused | failed | stuck | unanswered | caughtUp => exact ⟨hstore, hpage⟩
  | taken page hrefuses taken =>
    rw [page, List.forall_mem_cons] at hpage
    exact ⟨htake _ _ _ hstore hpage.1 hrefuses taken, hpage.2⟩
  | answered _ _ answer => exact ⟨hstore, hserve _ _ _ answer⟩

/-- The indices asked for grow, and none is past the next one. -/
structure Ordered (F : Follower σ α ε) (s : σ) (p : Pass σ α ε) : Prop where
  sorted : p.asked.Pairwise (· > ·)
  behind : ∀ i ∈ p.asked, i ≤ F.next p.store
  from_ : ∀ i ∈ p.asked, F.next s ≤ i
  ahead : F.next s ≤ F.next p.store

/-- **No index is asked for twice**, if taking an entry never takes the index back. -/
theorem asked_run (hserve : ∀ n i page, serve n i = .ok page → ∀ a ∈ page, P a)
    (htake : ∀ s a s', I s → P a → F.refuses s a = false → F.take s a = .ok s' →
      I s' ∧ F.next s ≤ F.next s') (h : I s) (n : ℕ) : Ordered F s (run F serve n s) := by
  have hasked : ∀ p : Pass σ α ε, Ordered F s p → p.asked.head? ≠ some (F.next p.store) →
      (F.next p.store :: p.asked).Pairwise (· > ·) := by
    intro p hp hne
    refine List.pairwise_cons.2 ⟨fun i hi => ?_, hp.sorted⟩
    cases hlist : p.asked with
    | nil => exact absurd (hlist ▸ hi) List.not_mem_nil
    | cons j rest =>
      have hsorted := hp.sorted
      rw [hlist] at hi hne hsorted
      have hj : j < F.next p.store :=
        lt_of_le_of_ne (hp.behind j (hlist ▸ List.mem_cons_self ..)) fun heq => hne (heq ▸ rfl)
      rcases List.mem_cons.1 hi with rfl | hi
      · exact hj
      · exact lt_trans (List.rel_of_pairwise_cons hsorted hi) hj
  refine (run_induction (motive := fun p => (I p.store ∧ ∀ a ∈ p.page, P a) ∧ Ordered F s p)
    ⟨⟨h, by simp⟩, ⟨List.Pairwise.nil, by simp, by simp, le_refl _⟩⟩
    (fun p p' ih _ hmove => ?_) n).2
  obtain ⟨⟨hstore, hpage⟩, hp⟩ := ih
  cases hmove with
  | refused | failed | stuck => exact ⟨⟨hstore, hpage⟩, hp.sorted, hp.behind, hp.from_, hp.ahead⟩
  | taken page hrefuses taken =>
    rw [page, List.forall_mem_cons] at hpage
    obtain ⟨hstore', hle⟩ := htake _ _ _ hstore hpage.1 hrefuses taken
    exact ⟨⟨hstore', hpage.2⟩, hp.sorted, fun i hi => (hp.behind i hi).trans hle, hp.from_,
      hp.ahead.trans hle⟩
  | unanswered _ hne | caughtUp _ hne =>
    exact ⟨⟨hstore, hpage⟩, hasked p hp hne,
      List.forall_mem_cons.2 ⟨le_refl _, hp.behind⟩, List.forall_mem_cons.2 ⟨hp.ahead, hp.from_⟩,
      hp.ahead⟩
  | answered _ hne answer =>
    exact ⟨⟨hstore, hserve _ _ _ answer⟩, hasked p hp hne,
      List.forall_mem_cons.2 ⟨le_refl _, hp.behind⟩, List.forall_mem_cons.2 ⟨hp.ahead, hp.from_⟩,
      hp.ahead⟩

/-- Numbers that fall from `b` down to `a` are no more than `b - a + 1`. -/
theorem length_le_of_pairwise {a b : ℕ} : ∀ {l : List ℕ}, l.Pairwise (· > ·) → (∀ i ∈ l, i ≤ b) →
    (∀ i ∈ l, a ≤ i) → l.length ≤ b + 1 - a
  | [], _, _, _ => Nat.zero_le _
  | i :: l, hl, hle, hge => by
    rw [List.pairwise_cons] at hl
    have hi := List.forall_mem_cons.1 hle
    have ha := (List.forall_mem_cons.1 hge).1
    rcases Nat.eq_zero_or_pos i with rfl | hpos
    · have hnil : l = [] := List.eq_nil_iff_forall_not_mem.2 fun j hj => absurd (hl.1 j hj) (by omega)
      subst hnil
      rw [List.length_singleton]
      omega
    · have ih := length_le_of_pairwise (a := a) (b := i - 1) hl.2
        (fun j hj => Nat.le_sub_one_of_lt (hl.1 j hj)) (List.forall_mem_cons.1 hge).2
      rw [List.length_cons]
      omega

/-- A request is answered by an advance, the last one apart. -/
theorem Ordered.length_asked {p : Pass σ α ε} (h : Ordered F s p) :
    p.asked.length ≤ F.next p.store + 1 - F.next s :=
  length_le_of_pairwise h.sorted h.behind h.from_

/-- **No page is in vain**, if taking an entry always advances the index: the pass does
not end for want of progress. -/
theorem not_stuck_run (hserve : ∀ n i page, serve n i = .ok page → ∀ a ∈ page, P a)
    (htake : ∀ s a s', I s → P a → F.refuses s a = false → F.take s a = .ok s' →
      I s' ∧ F.next s < F.next s') (h : I s) (n : ℕ) :
    (run F serve n s).outcome ≠ some .stuck := by
  refine (run_induction (motive := fun p =>
    ((I p.store ∧ ∀ a ∈ p.page, P a) ∧ ∀ i ∈ p.asked.head?, i ≤ F.next p.store) ∧
      (p.page = [] → p.outcome = none → p.asked.head? ≠ some (F.next p.store)) ∧
        p.outcome ≠ some .stuck)
    ⟨⟨⟨h, by simp⟩, by simp⟩, by simp, by simp⟩ (fun p p' ih hnone hmove => ?_) n).2.2
  obtain ⟨⟨⟨hstore, hpage⟩, hbehind⟩, hfresh, hstuck⟩ := ih
  cases hmove with
  | refused | failed =>
    exact ⟨⟨⟨hstore, hpage⟩, hbehind⟩, fun _ ho => absurd ho (by simp), by simp⟩
  | stuck page hasked => exact absurd hasked (hfresh page hnone)
  | taken page hrefuses taken =>
    rw [page, List.forall_mem_cons] at hpage
    obtain ⟨hstore', hlt⟩ := htake _ _ _ hstore hpage.1 hrefuses taken
    have hbefore : ∀ i ∈ p.asked.head?, i < F.next _ := fun i hi => (hbehind i hi).trans_lt hlt
    exact ⟨⟨⟨hstore', hpage.2⟩, fun i hi => (hbefore i hi).le⟩,
      fun _ _ hasked => lt_irrefl _ (hbefore _ hasked), hstuck⟩
  | unanswered | caughtUp =>
    refine ⟨⟨⟨hstore, hpage⟩, fun i hi => ?_⟩, fun _ ho => absurd ho (by simp), by simp⟩
    rw [List.head?_cons, Option.mem_some_iff] at hi
    exact hi.symm.le
  | answered _ _ answer =>
    refine ⟨⟨⟨hstore, hserve _ _ _ answer⟩, fun i hi => ?_⟩,
      fun hp => absurd hp (List.cons_ne_nil _ _), hstuck⟩
    rw [List.head?_cons, Option.mem_some_iff] at hi
    exact hi.symm.le

/-- What an outcome says. -/
def Means (F : Follower σ α ε) (serve : ℕ → ℕ → Except ε (List α)) (p : Pass σ α ε) :
    Outcome α ε → Prop
  | .caughtUp => ∃ n, serve n (F.next p.store) = .ok []
  | .stuck => p.asked.head? = some (F.next p.store)
  | .refused a => F.refuses p.store a = true
  | .failed a e => F.refuses p.store a = false ∧ F.take p.store a = .error e
  | .unanswered e => ∃ n, serve n (F.next p.store) = .error e

/-- **What the outcome of a run says.** -/
theorem outcome_run (n : ℕ) {o : Outcome α ε} (h : (run F serve n s).outcome = some o) :
    Means F serve (run F serve n s) o := by
  refine run_induction (motive := fun p => ∀ o, p.outcome = some o → Means F serve p o) (by simp)
    (fun p p' _ hnone hmove o ho => ?_) n o h
  cases hmove with
  | refused _ hrefuses =>
    cases ho
    exact hrefuses
  | failed _ hrefuses failed =>
    cases ho
    exact ⟨hrefuses, failed⟩
  | stuck _ hasked =>
    cases ho
    exact hasked
  | unanswered _ _ answer | caughtUp _ _ answer =>
    cases ho
    exact ⟨_, answer⟩
  | taken | answered =>
    rw [show p.outcome = none from hnone] at ho
    cases ho

end

/-! ## Against a server that answers from a log -/

section

variable {β : Type*} {I : σ → Prop} {R : α → β → Prop} {s : σ} {log : List β} {limit : ℕ}

/-- How far a pass is from the end of the log, in steps. -/
def remaining (F : Follower σ α ε) (log : List β) (p : Pass σ α ε) : ℕ :=
  2 * (log.length - F.next p.store) + if p.page = [] then 1 else 0

/-- The page holds the entries that come next, as the server tells them, the next request
is a new one, and the pass ends with the whole log only. -/
structure OnLog (F : Follower σ α ε) (I : σ → Prop) (R : α → β → Prop) (log : List β)
    (p : Pass σ α ε) : Prop where
  store : I p.store
  next_le : F.next p.store ≤ log.length
  page : ∃ k, List.Forall₂ R p.page ((log.drop (F.next p.store)).take k)
  behind : ∀ i ∈ p.asked.head?, i ≤ F.next p.store
  fresh : p.page = [] → p.outcome = none → p.asked.head? ≠ some (F.next p.store)
  outcome : ∀ o, p.outcome = some o → o = .caughtUp ∧ F.next p.store = log.length

variable (hserve : ∀ n i, ∃ page, serve n i = .ok page ∧
    List.Forall₂ R page ((log.drop i).take limit)) (hlimit : 0 < limit)
  (htake : ∀ s a b, I s → log[F.next s]? = some b → R a b → F.refuses s a = false ∧
    ∃ s', F.take s a = .ok s' ∧ I s' ∧ F.next s' = F.next s + 1)

include hserve hlimit htake

theorem OnLog.moves {p p' : Pass σ α ε} (h : OnLog F I R log p) (hnone : p.outcome = none)
    (hmove : Moves F serve p p') :
    OnLog F I R log p' ∧ (p'.outcome = none → remaining F log p' < remaining F log p) := by
  -- the first entry of the page is the next one of the log, and it can be taken
  have hfirst : ∀ {a : α} {rest : List α}, p.page = a :: rest →
      F.next p.store < log.length ∧
        (∃ k, List.Forall₂ R rest ((log.drop (F.next p.store + 1)).take k)) ∧
        F.refuses p.store a = false ∧
        ∃ s', F.take p.store a = .ok s' ∧ I s' ∧ F.next s' = F.next p.store + 1 := by
    intro a rest hpage
    obtain ⟨k, hon⟩ := h.page
    rw [hpage] at hon
    have hlt : F.next p.store < log.length := by
      by_contra hge
      rw [List.drop_eq_nil_of_le (not_lt.1 hge), List.take_nil] at hon
      cases hon
    obtain ⟨k, rfl⟩ : ∃ j, k = j + 1 := by
      cases k with
      | zero => cases hon
      | succ j => exact ⟨j, rfl⟩
    rw [List.drop_eq_getElem_cons hlt, List.take_succ_cons, List.forall₂_cons] at hon
    obtain ⟨hrefuses, htaken⟩ := htake _ _ _ h.store (List.getElem?_eq_getElem hlt) hon.1
    exact ⟨hlt, ⟨k, hon.2⟩, hrefuses, htaken⟩
  -- the answer is what the log holds next
  have hanswer : ∀ {page : List α}, serve p.asked.length (F.next p.store) = .ok page →
      List.Forall₂ R page ((log.drop (F.next p.store)).take limit) := by
    intro page hp
    obtain ⟨page', hp', hall⟩ := hserve p.asked.length (F.next p.store)
    exact Except.ok.inj (hp'.symm.trans hp) ▸ hall
  cases hmove with
  | refused page hrefuses =>
    rw [(hfirst page).2.2.1] at hrefuses
    cases hrefuses
  | failed page _ failed =>
    obtain ⟨-, -, -, s', hs', -⟩ := hfirst page
    rw [hs'] at failed
    cases failed
  | stuck page hasked => exact absurd hasked (h.fresh page hnone)
  | unanswered _ _ answer =>
    obtain ⟨page, hp, -⟩ := hserve p.asked.length (F.next p.store)
    rw [hp] at answer
    cases answer
  | @taken a rest s' page _ taken =>
    obtain ⟨hlt, hrest, -, t, ht, hI, hnext⟩ := hfirst page
    obtain rfl : t = s' := Except.ok.inj (ht.symm.trans taken)
    have hbehind : ∀ i ∈ p.asked.head?, i < F.next t := fun i hi => by
      have := h.behind i hi
      omega
    refine ⟨⟨hI, hnext ▸ hlt, hnext ▸ hrest, fun i hi => (hbehind i hi).le, fun _ _ hasked => ?_,
      fun o ho => absurd (hnone.symm.trans ho) (by simp)⟩, fun _ => ?_⟩
    · exact lt_irrefl _ (hbehind _ hasked)
    · simp only [remaining, page, List.cons_ne_nil, if_false, hnext]
      split_ifs <;> omega
  | caughtUp page _ answer =>
    have hend : log.length ≤ F.next p.store := by
      by_contra hlt
      have hlength := (hanswer answer).length_eq
      rw [List.length_nil, List.length_take, List.length_drop] at hlength
      omega
    refine ⟨⟨h.store, h.next_le, h.page, fun i hi => ?_, fun _ ho => absurd ho (by simp),
      fun o ho => ?_⟩, fun ho => absurd ho (by simp)⟩
    · rw [List.head?_cons, Option.mem_some_iff] at hi
      exact hi.symm.le
    · exact ⟨(Option.some.inj ho).symm, le_antisymm h.next_le hend⟩
  | answered page _ answer =>
    refine ⟨⟨h.store, h.next_le, ⟨limit, hanswer answer⟩, fun i hi => ?_,
      fun hp => absurd hp (List.cons_ne_nil _ _), h.outcome⟩, fun _ => ?_⟩
    · rw [List.head?_cons, Option.mem_some_iff] at hi
      exact hi.symm.le
    · simp only [remaining, page, List.cons_ne_nil, if_false, if_true]
      omega

/-- **The follower gets the whole log.**  After two steps for each entry that it lacks,
and one more, it has ended, and with the log. -/
theorem follows (h : I s) (hs : F.next s ≤ log.length) {n : ℕ}
    (hn : 2 * (log.length - F.next s) + 1 ≤ n) :
    (run F serve n s).outcome = some .caughtUp ∧ I (run F serve n s).store ∧
      F.next (run F serve n s).store = log.length := by
  have hrun : ∀ n, OnLog F I R log (run F serve n s) ∧ ((run F serve n s).outcome = none →
      remaining F log (run F serve n s) + n ≤ 2 * (log.length - F.next s) + 1) := by
    intro n
    induction n with
    | zero => exact ⟨⟨h, hs, ⟨0, .nil⟩, by simp [run], by simp [run], by simp [run]⟩,
        fun _ => le_refl _⟩
    | succ n ih =>
      rw [run_succ]
      cases ho : (run F serve n s).outcome with
      | some o =>
        rw [step_done ho]
        exact ⟨ih.1, fun hnone => absurd (ho.symm.trans hnone) (by simp)⟩
      | none =>
        obtain ⟨hon, hless⟩ := ih.1.moves hserve hlimit htake ho (step_moves ho)
        refine ⟨hon, fun hnone => ?_⟩
        have := hless hnone
        have := ih.2 ho
        omega
  obtain ⟨hon, hless⟩ := hrun n
  cases ho : (run F serve n s).outcome with
  | some o =>
    obtain ⟨rfl, hend⟩ := hon.outcome o ho
    exact ⟨rfl, hon.store, hend⟩
  | none =>
    -- no step is left, but the page would be used up
    have hle := hless ho
    have hzero : remaining F log (run F serve n s) = 0 := by omega
    unfold remaining at hzero
    obtain ⟨k, hpage⟩ := hon.page
    rw [List.drop_eq_nil_of_le (by omega), List.take_nil, List.forall₂_nil_right_iff] at hpage
    rw [if_pos hpage] at hzero
    omega

end

end Follow
