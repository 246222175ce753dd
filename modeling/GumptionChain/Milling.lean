import GumptionChain.Block
import GumptionChain.Lib.Rounds

/-!
# The nonce search

`milling.py`: `mill_work` over a window of nonces, `mill_block` over one window a round and
`mill_block_mp` over one window a process and round, their results in any order.  The
proofs that are hashed are logged, window by window.

* `Milling.millBlock_searches` — what `mill_block` has hashed and yields;
* `Milling.millBlockMp_searches` — the same of `mill_block_mp`;
* `Milling.solve_of_hit` — the validator's header is the workers'.
-/

namespace GumptionChain
namespace Milling

/-! ## The functions -/

section Functions

variable (E : Env) (unprovenHeader : Str) (target : ℕ)

/-- `int(mill_hash_str(f'{unproven_header}{proof}'), 16) < target`.  A digest is always
read as a number. -/
def hit (proof : ℕ) : Bool :=
  (int16 (E.millHashStr (unprovenHeader ++ natStr proof))).any fun h => h < target

/-- The proofs of `range(work_start, work_stop)`. -/
def window (workStart workStop : ℕ) : List ℕ := List.range' workStart (workStop - workStart)

/-- `mill_work`: the first proof of the window that hits, and what is left of the window. -/
def millWork (w : ℕ × ℕ) : Option ℕ × ℕ :=
  match (window w.1 w.2).find? (hit E unprovenHeader target) with
  | some proof => (some proof, w.2 - proof)
  | none => (none, w.2 - w.1)

/-- The proofs that a scan hashes: up to the first that hits. -/
def tried (p : ℕ → Bool) : List ℕ → List ℕ
  | [] => []
  | n :: l => n :: if p n then [] else tried p l

/-- The variables of the generators, and the log of the proofs hashed. -/
structure Search where
  proofOfWork : Option ℕ
  proofStart : ℕ
  hashed : List ℕ

/-- The variables before the first round. -/
def Search.start : Search := ⟨none, 0, []⟩

/-- `proof_of_work is not None`. -/
def Search.finished (s : Search) : Bool := s.proofOfWork.isSome

/-- The body of the loop of `mill_block`. -/
def round (worksize : ℕ) (s : Search) : Search :=
  let w := (s.proofStart, s.proofStart + worksize)
  { -- `if proof is not None and proof_of_work is None: proof_of_work = proof`
    proofOfWork := s.proofOfWork.or (millWork E unprovenHeader target w).1
    proofStart := s.proofStart + worksize
    hashed := s.hashed ++ tried (hit E unprovenHeader target) (window w.1 w.2) }

/-- `work_generator`. -/
def workGenerator (start worksize num : ℕ) : List (ℕ × ℕ) :=
  (List.range num).map fun i => (start + i * worksize, start + i * worksize + worksize)

/-- The order in which `imap_unordered` gives the results of the round begun at a proof. -/
structure Arrival where
  order : ℕ → List (Option ℕ × ℕ) → List (Option ℕ × ℕ)
  perm : ∀ start results, (order start results).Perm results

/-- The body of the loop of `mill_block_mp`. -/
def roundMp (arrival : Arrival) (cpus worksize : ℕ) (s : Search) : Search :=
  let work := workGenerator s.proofStart worksize cpus
  let imap := arrival.order s.proofStart (work.map (millWork E unprovenHeader target))
  { proofOfWork := imap.foldl (fun proofOfWork r => proofOfWork.or r.1) s.proofOfWork
    proofStart := s.proofStart + worksize * cpus
    hashed := s.hashed ++
      work.flatMap fun w => tried (hit E unprovenHeader target) (window w.1 w.2) }

end Functions

/-- What `milling_generator` does with what it is given: `block.solve` before it yields. -/
def solveYielded (E : Env) (b : Block) (s : Search) : Except Err Block :=
  match s.proofOfWork with
  | some proof => b.solve E proof
  | none => .ok b

/-- The states at the yields of `mill_block(block, rounds, worksize)`. -/
def MillBlockYields (E : Env) (b : Block) (target rounds worksize : ℕ) : Search → Prop :=
  Rounds.Yielded Search.finished (round E b.unprovenHeader target worksize) rounds .start

/-- The states at the yields of `mill_block_mp(block, rounds, worksize)` on `cpus` processes. -/
def MillBlockMpYields (E : Env) (b : Block) (target : ℕ) (arrival : Arrival)
    (rounds worksize cpus : ℕ) : Search → Prop :=
  Rounds.Yielded Search.finished (roundMp E b.unprovenHeader target arrival cpus worksize) rounds
    .start

/-! ## One window -/

section Window

variable {E : Env} {unprovenHeader : Str} {target : ℕ}

theorem mem_window {a b n : ℕ} : n ∈ window a b ↔ a ≤ n ∧ n < b := by
  rw [window, List.mem_range'_1]
  omega

theorem millWork_fst (w : ℕ × ℕ) : (millWork E unprovenHeader target w).1 =
    (window w.1 w.2).find? (hit E unprovenHeader target) := by
  unfold millWork
  cases (window w.1 w.2).find? (hit E unprovenHeader target) <;> rfl

/-- A window without a hit is hashed whole. -/
theorem tried_of_none {p : ℕ → Bool} {l : List ℕ} (h : ∀ n ∈ l, p n = false) : tried p l = l := by
  induction l with
  | nil => rfl
  | cons n l ih =>
    obtain ⟨hn, hl⟩ := List.forall_mem_cons.1 h
    rw [tried, hn, if_neg Bool.false_ne_true, ih hl]

/-- A window with a hit is hashed up to the first. -/
theorem tried_range' {p : ℕ → Bool} {n : ℕ} : ∀ {a k : ℕ},
    (List.range' a k).find? p = some n → tried p (List.range' a k) = List.range' a (n + 1 - a)
  | a, 0, h => by cases h
  | a, k + 1, h => by
    rw [List.range'_succ] at h ⊢
    cases ha : p a with
    | true =>
      rw [List.find?_cons_of_pos ha, Option.some.injEq] at h
      rw [tried, ha, if_pos rfl, ← h, Nat.add_sub_cancel_left]
      rfl
    | false =>
      rw [List.find?_cons_of_neg (by simp [ha])] at h
      have hle : a + 1 ≤ n := (List.mem_range'_1.1 (List.mem_of_find?_eq_some h)).1
      rw [tried, ha, if_neg Bool.false_ne_true, tried_range' h,
        show n + 1 - a = (n + 1 - (a + 1)) + 1 by omega, List.range'_succ]

theorem find_window_eq_some {p : ℕ → Bool} {a b n : ℕ} : (window a b).find? p = some n ↔
    p n = true ∧ n ∈ window a b ∧ ∀ m, a ≤ m → m < n → p m = false := by
  rw [window, List.find?_range'_eq_some]
  simp only [Bool.not_eq_true']

theorem find_window_eq_none {p : ℕ → Bool} {a b : ℕ} :
    (window a b).find? p = none ↔ ∀ n, a ≤ n → n < b → p n = false := by
  rw [List.find?_eq_none]
  refine forall_congr' fun n => ?_
  rw [mem_window, Bool.not_eq_true, and_imp]

end Window

/-! ## Rounds that cover the nonces -/

/-- A round looks for a hit among the next `w` nonces. -/
structure Covers (p : ℕ → Bool) (w : ℕ) (round : Search → Search) : Prop where
  advance : ∀ s, (round s).proofStart = s.proofStart + w
  none_iff : ∀ s, s.proofOfWork = none → ((round s).proofOfWork = none ↔
    ∀ n, s.proofStart ≤ n → n < s.proofStart + w → p n = false)
  found : ∀ s n, s.proofOfWork = none → (round s).proofOfWork = some n →
    p n = true ∧ s.proofStart ≤ n ∧ n < s.proofStart + w

namespace Covers

variable {p : ℕ → Bool} {w : ℕ} {round : Search → Search}

theorem proofStart_iterate (h : Covers p w round) (s : Search) (k : ℕ) :
    (round^[k] s).proofStart = s.proofStart + k * w := by
  induction k with
  | zero => rw [Nat.zero_mul]; rfl
  | succ k ih =>
    rw [Function.iterate_succ_apply', h.advance, ih, Nat.succ_mul, Nat.add_assoc]

theorem going_of_unfinished {k : ℕ} {s : Search}
    (h : Rounds.Unfinished Search.finished round s (k + 1)) :
    (round^[k] s).proofOfWork = none ∧ Rounds.Unfinished Search.finished round s k :=
  ⟨Option.isNone_iff_eq_none.1 (by simpa [Search.finished] using h k (Nat.lt_succ_self k)),
    fun j hj => h j (Nat.lt_succ_of_lt hj)⟩

/-- No hit among the nonces covered is the same as no proof. -/
theorem none_iff_iterate (h : Covers p w round) : ∀ {k : ℕ},
    Rounds.Unfinished Search.finished round .start k →
    ((round^[k] .start).proofOfWork = none ↔ ∀ n < k * w, p n = false)
  | 0, _ => by
    rw [Nat.zero_mul]
    exact iff_of_true rfl fun n hn => absurd hn (Nat.not_lt_zero n)
  | k + 1, hk => by
    obtain ⟨hgoing, hk⟩ := going_of_unfinished hk
    have hbelow := (none_iff_iterate h hk).1 hgoing
    have hstart := h.proofStart_iterate .start k
    rw [show Search.start.proofStart = 0 from rfl, Nat.zero_add] at hstart
    rw [Function.iterate_succ_apply', h.none_iff _ hgoing, hstart, Nat.succ_mul]
    constructor
    · intro hnext n hn
      rcases Nat.lt_or_ge n (k * w) with hlt | hge
      · exact hbelow n hlt
      · exact hnext n hge hn
    · exact fun hall n _ hn => hall n hn

/-- A proof is a hit of the last `w` nonces, after none before them. -/
theorem found_iterate (h : Covers p w round) {k n : ℕ}
    (hk : Rounds.Unfinished Search.finished round .start k)
    (hn : (round^[k] .start).proofOfWork = some n) :
    p n = true ∧ k * w ≤ n + w ∧ n < k * w ∧ ∀ m, m + w < k * w → p m = false := by
  cases k with
  | zero => cases hn
  | succ k =>
    obtain ⟨hgoing, hk⟩ := going_of_unfinished hk
    have hbelow := (h.none_iff_iterate hk).1 hgoing
    rw [Function.iterate_succ_apply'] at hn
    obtain ⟨hhit, hlo, hhi⟩ := h.found _ n hgoing hn
    rw [h.proofStart_iterate, show Search.start.proofStart = 0 from rfl, Nat.zero_add] at hlo hhi
    rw [Nat.succ_mul]
    exact ⟨hhit, by omega, hhi, fun m hm => hbelow m (by omega)⟩

/-- The next yield comes unless the rounds are without a bound and there is no hit. -/
theorem resume_iff (h : Covers p w round) (hw : 0 < w) {rounds k : ℕ}
    (hk : Rounds.Unfinished Search.finished round .start k) :
    (∃ fuel s', Rounds.resume Search.finished round rounds fuel (round^[k] .start) = some s') ↔
      rounds ≠ 0 ∨ ∃ n, p n = true := by
  rw [Rounds.resume_isSome_iff]
  refine or_congr_right ⟨fun hex => ?_, fun ⟨n, hn⟩ => ?_⟩
  · -- the proof of the first round that is the last
    classical
    have hunf := hk.add (j := Nat.find hex)
      fun i hi => Bool.eq_false_iff.2 (Nat.find_min hex hi)
    have hfin := Nat.find_spec hex
    rw [← Function.iterate_add_apply] at hfin
    obtain ⟨n, hn⟩ := Option.isSome_iff_exists.1 hfin
    exact ⟨n, (h.found_iterate hunf hn).1⟩
  · -- rounds that go on pass every nonce
    by_contra hnever
    have hgoes : ∀ j, Search.finished (round^[j] (round^[k] .start)) = false :=
      fun j => Bool.eq_false_iff.2 fun hj => hnever ⟨j, hj⟩
    have hnone : (round^[n + 1 + k] .start).proofOfWork = none := by
      rw [Function.iterate_add_apply]
      exact Option.isNone_iff_eq_none.1 (by simpa [Search.finished] using hgoes (n + 1))
    have hlt : n < (n + 1 + k) * w :=
      calc n < n + 1 + k := by omega
        _ ≤ (n + 1 + k) * w := Nat.le_mul_of_pos_right _ hw
    rw [(h.none_iff_iterate (hk.add fun i _ => hgoes i)).1 hnone n hlt] at hn
    cases hn

end Covers

/-! ## The rounds of the two generators -/

section Generators

variable {E : Env} {unprovenHeader : Str} {target : ℕ}

theorem covers_round (E : Env) (unprovenHeader : Str) (target worksize : ℕ) :
    Covers (hit E unprovenHeader target) worksize (round E unprovenHeader target worksize) where
  advance _ := rfl
  none_iff s hs := by
    rw [round]
    dsimp only
    rw [hs, Option.none_or, millWork_fst, find_window_eq_none]
  found s n hs hn := by
    rw [round] at hn
    dsimp only at hn
    rw [hs, Option.none_or, millWork_fst, find_window_eq_some, mem_window] at hn
    exact ⟨hn.1, hn.2.1⟩

/-- The first result that has a proof. -/
theorem foldl_or {α : Type} (f : α → Option ℕ) : ∀ (l : List α) (a : Option ℕ),
    l.foldl (fun a r => a.or (f r)) a = a.or (l.findSome? f)
  | [], a => by rw [List.foldl_nil, List.findSome?_nil, Option.or_none]
  | r :: l, a => by
    rw [List.foldl_cons, foldl_or f l, List.findSome?_cons]
    cases a with
    | some a => rfl
    | none => cases f r <;> rfl

/-- The windows of a round cover the nonces up to the next. -/
theorem mem_workGenerator {start worksize num n : ℕ} :
    (∃ w ∈ workGenerator start worksize num, n ∈ window w.1 w.2) ↔
      start ≤ n ∧ n < start + worksize * num := by
  simp only [workGenerator, List.mem_map, List.mem_range, exists_exists_and_eq_and, mem_window]
  constructor
  · rintro ⟨i, hi, hlo, hhi⟩
    have : (i + 1) * worksize ≤ num * worksize := Nat.mul_le_mul_right _ hi
    rw [Nat.succ_mul, Nat.mul_comm num] at this
    omega
  · rintro ⟨hlo, hhi⟩
    have hpos : 0 < worksize := by
      rcases Nat.eq_zero_or_pos worksize with rfl | h
      · rw [Nat.zero_mul] at hhi
        omega
      · exact h
    have hdiv := Nat.div_add_mod (n - start) worksize
    have hmod := Nat.mod_lt (n - start) hpos
    refine ⟨(n - start) / worksize, ?_, ?_⟩
    · rw [Nat.div_lt_iff_lt_mul hpos, Nat.mul_comm]
      omega
    · rw [Nat.mul_comm]
      omega

theorem covers_roundMp (E : Env) (unprovenHeader : Str) (target : ℕ) (arrival : Arrival)
    (cpus worksize : ℕ) :
    Covers (hit E unprovenHeader target) (worksize * cpus)
      (roundMp E unprovenHeader target arrival cpus worksize) where
  advance _ := rfl
  none_iff s hs := by
    rw [roundMp]
    dsimp only
    rw [hs, foldl_or, Option.none_or, List.findSome?_eq_none_iff]
    simp only [(arrival.perm _ _).mem_iff, List.forall_mem_map, millWork_fst, find_window_eq_none]
    constructor
    · intro hall n hlo hhi
      obtain ⟨w, hw, hn⟩ := mem_workGenerator.2 ⟨hlo, hhi⟩
      rw [mem_window] at hn
      exact hall w hw n hn.1 hn.2
    · intro hall w hw n hlo hhi
      obtain ⟨hlo', hhi'⟩ := mem_workGenerator.1 ⟨w, hw, mem_window.2 ⟨hlo, hhi⟩⟩
      exact hall n hlo' hhi'
  found s n hs hn := by
    rw [roundMp] at hn
    dsimp only at hn
    rw [hs, foldl_or, Option.none_or] at hn
    obtain ⟨r, hr, hrn⟩ := List.exists_of_findSome?_eq_some hn
    obtain ⟨w, hw, rfl⟩ := List.mem_map.1 ((arrival.perm _ _).mem_iff.1 hr)
    rw [millWork_fst, find_window_eq_some] at hrn
    exact ⟨hrn.1, mem_workGenerator.1 ⟨w, hw, hrn.2.1⟩⟩

theorem range_append_range' (a b : ℕ) : List.range a ++ List.range' a b = List.range (a + b) := by
  have := List.range'_append_1 (s := 0) (m := a) (n := b)
  rwa [Nat.zero_add, ← List.range_eq_range', ← List.range_eq_range'] at this

/-- What `mill_block` has hashed after some rounds. -/
theorem hashed_iterate {worksize : ℕ} : ∀ {k : ℕ},
    Rounds.Unfinished Search.finished (round E unprovenHeader target worksize) .start k →
    ((round E unprovenHeader target worksize)^[k] .start).hashed =
      List.range (match ((round E unprovenHeader target worksize)^[k] .start).proofOfWork with
        | none => k * worksize
        | some n => n + 1)
  | 0, _ => by
    show [] = List.range (0 * worksize)
    rw [Nat.zero_mul, List.range_zero]
  | k + 1, hk => by
    have hcovers := covers_round E unprovenHeader target worksize
    obtain ⟨hgoing, hk⟩ := Covers.going_of_unfinished hk
    have ih := hashed_iterate hk
    have hstart := hcovers.proofStart_iterate .start k
    rw [show Search.start.proofStart = 0 from rfl, Nat.zero_add] at hstart
    rw [hgoing] at ih
    rw [Function.iterate_succ_apply', round]
    dsimp only at ih ⊢
    rw [hgoing, Option.none_or, millWork_fst, hstart, ih]
    cases hfind : (window (k * worksize) (k * worksize + worksize)).find?
        (hit E unprovenHeader target) with
    | none =>
      rw [tried_of_none fun n hn => ?_, window, Nat.add_sub_cancel_left, range_append_range',
        Nat.succ_mul]
      obtain ⟨hlo, hhi⟩ := mem_window.1 hn
      exact find_window_eq_none.1 hfind n hlo hhi
    | some n =>
      have hmem := (find_window_eq_some.1 hfind).2.1
      rw [mem_window] at hmem
      rw [window] at hfind ⊢
      rw [tried_range' hfind, range_append_range',
        show k * worksize + (n + 1 - k * worksize) = n + 1 by omega]

/-- The proof that `mill_block` finds is the least. -/
theorem least_iterate {worksize k n : ℕ}
    (hk : Rounds.Unfinished Search.finished (round E unprovenHeader target worksize) .start k)
    (hn : ((round E unprovenHeader target worksize)^[k] .start).proofOfWork = some n) :
    ∀ m < n, hit E unprovenHeader target m = false := by
  have hcovers := covers_round E unprovenHeader target worksize
  cases k with
  | zero => cases hn
  | succ k =>
    obtain ⟨hgoing, hk⟩ := Covers.going_of_unfinished hk
    have hbelow := (hcovers.none_iff_iterate hk).1 hgoing
    have hstart := hcovers.proofStart_iterate .start k
    rw [show Search.start.proofStart = 0 from rfl, Nat.zero_add] at hstart
    rw [Function.iterate_succ_apply', round] at hn
    dsimp only at hn
    rw [hgoing, Option.none_or, millWork_fst, hstart, find_window_eq_some] at hn
    intro m hm
    rcases Nat.lt_or_ge m (k * worksize) with hlt | hge
    · exact hbelow m hlt
    · exact hn.2.2 m hge hm

/-- Windows laid end to end. -/
theorem flatMap_window (worksize : ℕ) : ∀ m : ℕ,
    ((List.range m).flatMap fun k => window (k * worksize) (k * worksize + worksize)) =
      List.range (m * worksize)
  | 0 => by rw [Nat.zero_mul]; rfl
  | m + 1 => by
    rw [List.range_succ, List.flatMap_append, flatMap_window worksize m, List.flatMap_singleton,
      window, Nat.add_sub_cancel_left, range_append_range', Nat.succ_mul]

/-- What `mill_block_mp` has hashed after some rounds: every window once, up to its hit. -/
theorem hashed_iterate_mp {arrival : Arrival} {cpus worksize : ℕ} : ∀ k : ℕ,
    ((roundMp E unprovenHeader target arrival cpus worksize)^[k] .start).hashed =
      (List.range (k * cpus)).flatMap fun i => tried (hit E unprovenHeader target)
        (window (i * worksize) (i * worksize + worksize))
  | 0 => by rw [Nat.zero_mul]; rfl
  | k + 1 => by
    have hstart := (covers_roundMp E unprovenHeader target arrival cpus
      worksize).proofStart_iterate .start k
    rw [show Search.start.proofStart = 0 from rfl, Nat.zero_add] at hstart
    rw [Function.iterate_succ_apply', roundMp]
    dsimp only
    rw [hashed_iterate_mp k, hstart, workGenerator, List.flatMap_map, Nat.succ_mul, List.range_add,
      List.flatMap_append, List.flatMap_map]
    congr 2
    funext i
    have harith : k * (worksize * cpus) + i * worksize = (k * cpus + i) * worksize := by ring
    simp only [harith]

end Generators

/-! ## What is yielded -/

/-- A nonce that hits solves the block. -/
theorem solve_of_hit {E : Env} {b : Block} {target proof : ℕ} (ht : int16 b.target = some target)
    (h : hit E b.unprovenHeader target proof = true) : ∃ b', b.solve E proof = .ok b' := by
  unfold hit at h
  have hvalid : b.validateProofOfWork E proof = some true := by
    rw [Block.validateProofOfWork, Block.potentialHeader]
    show validateHashDiff (E.millHashStr (b.unprovenHeader ++ natStr proof)) b.target = some true
    cases hv : int16 (E.millHashStr (b.unprovenHeader ++ natStr proof)) with
    | none => rw [hv] at h; cases h
    | some v =>
      rw [hv, Option.any_some] at h
      rw [validateHashDiff, hv, ht]
      exact congrArg some h
  exact ⟨_, by rw [Block.solve, hvalid]⟩

/-- What holds at a yield of `mill_block`. -/
structure Searches (E : Env) (b : Block) (target : ℕ) (s : Search) : Prop where
  /-- The proofs hashed are the first naturals, each once, up to the hit. -/
  hashed : s.hashed = List.range (match s.proofOfWork with
    | none => s.proofStart
    | some n => n + 1)
  none_iff : s.proofOfWork = none ↔ ∀ n ∈ s.hashed, hit E b.unprovenHeader target n = false
  least : ∀ n, s.proofOfWork = some n → IsLeast {n | hit E b.unprovenHeader target n = true} n
  solved : ∃ b', solveYielded E b s = .ok b'

/-- What holds at a yield of `mill_block_mp`. -/
structure SearchesMp (E : Env) (b : Block) (target worksize cpus : ℕ) (s : Search) : Prop where
  /-- The windows scanned are the first ones, each once, up to its first hit. -/
  hashed : ∃ m, s.proofStart = m * (worksize * cpus) ∧
    s.hashed = (List.range (m * cpus)).flatMap fun k => tried (hit E b.unprovenHeader target)
      (window (k * worksize) (k * worksize + worksize))
  whole : s.proofOfWork = none → s.hashed = List.range s.proofStart
  none_iff : s.proofOfWork = none ↔ ∀ n < s.proofStart, hit E b.unprovenHeader target n = false
  /-- A proof is a hit of the last set of windows, and the sets before it hold none. -/
  first : ∀ n, s.proofOfWork = some n → hit E b.unprovenHeader target n = true ∧
    s.proofStart ≤ n + worksize * cpus ∧ n < s.proofStart ∧
      ∀ m, m + worksize * cpus < s.proofStart → hit E b.unprovenHeader target m = false
  solved : ∃ b', solveYielded E b s = .ok b'

section Yields

variable {E : Env} {b : Block} {target : ℕ}

theorem solveYielded_ok (ht : int16 b.target = some target) {s : Search}
    (h : ∀ n, s.proofOfWork = some n → hit E b.unprovenHeader target n = true) :
    ∃ b', solveYielded E b s = .ok b' := by
  unfold solveYielded
  cases hn : s.proofOfWork with
  | none => exact ⟨b, rfl⟩
  | some n => exact solve_of_hit ht (h n hn)

theorem millBlock_searches (ht : int16 b.target = some target) {rounds worksize : ℕ} {s : Search}
    (h : MillBlockYields E b target rounds worksize s) : Searches E b target s := by
  obtain ⟨k, rfl, hk⟩ := Rounds.yielded_iterate h
  have hcovers := covers_round E b.unprovenHeader target worksize
  have hstart := hcovers.proofStart_iterate .start k
  rw [show Search.start.proofStart = 0 from rfl, Nat.zero_add] at hstart
  have hhashed := hashed_iterate hk
  have hfound : ∀ n, ((round E b.unprovenHeader target worksize)^[k] .start).proofOfWork = some n →
      hit E b.unprovenHeader target n = true := fun n hn => (hcovers.found_iterate hk hn).1
  refine ⟨?_, ?_, fun n hn => ⟨hfound n hn, fun m hm => ?_⟩, solveYielded_ok ht hfound⟩
  · rw [hhashed, hstart]
  · cases hn : ((round E b.unprovenHeader target worksize)^[k] .start).proofOfWork with
    | none =>
      rw [hn] at hhashed
      rw [hhashed]
      refine iff_of_true rfl fun n hmem => ?_
      exact (hcovers.none_iff_iterate hk).1 hn n (List.mem_range.1 hmem)
    | some n =>
      rw [hn] at hhashed
      rw [hhashed]
      refine iff_of_false (Option.some_ne_none n) fun hall => ?_
      have := hall n (List.mem_range.2 (Nat.lt_succ_self n))
      rw [hfound n hn] at this
      cases this
  · by_contra hlt
    exact absurd hm (Bool.eq_false_iff.1 (least_iterate hk hn m (Nat.lt_of_not_le hlt)))

theorem millBlockMp_searches (ht : int16 b.target = some target) {arrival : Arrival}
    {rounds worksize cpus : ℕ} {s : Search}
    (h : MillBlockMpYields E b target arrival rounds worksize cpus s) :
    SearchesMp E b target worksize cpus s := by
  obtain ⟨k, rfl, hk⟩ := Rounds.yielded_iterate h
  have hcovers := covers_roundMp E b.unprovenHeader target arrival cpus worksize
  have hstart := hcovers.proofStart_iterate .start k
  rw [show Search.start.proofStart = 0 from rfl, Nat.zero_add] at hstart
  have hhashed := @hashed_iterate_mp E b.unprovenHeader target arrival cpus worksize k
  have hnone := hcovers.none_iff_iterate hk
  refine ⟨⟨k, hstart, hhashed⟩, fun hn => ?_, ?_, fun n hn => ?_,
    solveYielded_ok ht fun n hn => (hcovers.found_iterate hk hn).1⟩
  · -- no window of those scanned is left early
    have hbelow := hnone.1 hn
    rw [hhashed, hstart, Nat.mul_comm worksize, ← Nat.mul_assoc,
      ← flatMap_window worksize (k * cpus)]
    refine List.flatMap_congr fun i hi => tried_of_none fun n hmem => hbelow n ?_
    rw [mem_window] at hmem
    have hle : (i + 1) * worksize ≤ k * cpus * worksize :=
      Nat.mul_le_mul_right _ (List.mem_range.1 hi)
    rw [Nat.succ_mul, Nat.mul_assoc, Nat.mul_comm cpus] at hle
    omega
  · rw [hnone, hstart]
  · rw [hstart]
    exact hcovers.found_iterate hk hn

/-- From a state that has no proof the next yield comes, unless the rounds are without a
bound and no nonce hits; a yield without a proof comes after `rounds` rounds. -/
structure Resumes (p : ℕ → Bool) (w rounds : ℕ) (round : Search → Search) : Prop where
  yields : ∀ s, s = .start ∨ Rounds.Yielded Search.finished round rounds .start s →
    s.proofOfWork = none →
      ((∃ fuel s', Rounds.resume Search.finished round rounds fuel s = some s') ↔
        rounds ≠ 0 ∨ ∃ n, p n = true)
  advances : ∀ fuel s s', Rounds.resume Search.finished round rounds fuel s = some s' →
    s'.proofOfWork = none → rounds ≠ 0 ∧ s'.proofStart = s.proofStart + rounds * w

theorem Covers.resumes {p : ℕ → Bool} {w rounds : ℕ} {round : Search → Search}
    (h : Covers p w round) (hw : 0 < w) : Resumes p w rounds round where
  yields s hs _ := by
    obtain ⟨k, rfl, hk⟩ : ∃ k, s = round^[k] .start ∧
        Rounds.Unfinished Search.finished round .start k := by
      rcases hs with rfl | hs
      · exact ⟨0, rfl, fun j hj => absurd hj (Nat.not_lt_zero j)⟩
      · exact Rounds.yielded_iterate hs
    exact h.resume_iff hw hk
  advances fuel s s' hrun hgoing := by
    obtain ⟨hrounds, rfl⟩ := Rounds.resume_of_unfinished hrun (by simp [Search.finished, hgoing])
    exact ⟨hrounds, h.proofStart_iterate s rounds⟩

/-- **The nonce search.**  At every yield both generators have hashed the first naturals,
window by window, each once and each window up to its first hit.  They yield `None` as long
as none of them hits; then `mill_block` yields the least nonce that does, and `mill_block_mp`,
in whatever order the results come, one of the first set of windows that holds any; and it
solves the block. -/
theorem nonce_search (ht : int16 b.target = some target) (rounds : ℕ) {worksize cpus : ℕ}
    (hworksize : 1 ≤ worksize) (hcpus : 1 ≤ cpus) :
    (∀ s, MillBlockYields E b target rounds worksize s → Searches E b target s) ∧
    Resumes (hit E b.unprovenHeader target) worksize rounds
      (round E b.unprovenHeader target worksize) ∧
    ∀ arrival, (∀ s, MillBlockMpYields E b target arrival rounds worksize cpus s →
        SearchesMp E b target worksize cpus s) ∧
      Resumes (hit E b.unprovenHeader target) (worksize * cpus) rounds
        (roundMp E b.unprovenHeader target arrival cpus worksize) :=
  ⟨fun _ => millBlock_searches ht, (covers_round E b.unprovenHeader target worksize).resumes
      hworksize, fun arrival =>
    ⟨fun _ => millBlockMp_searches ht,
      (covers_roundMp E b.unprovenHeader target arrival cpus worksize).resumes
        (Nat.mul_pos hworksize hcpus)⟩⟩

end Yields

namespace Sample

/-- A block to be milled, -/
def candidate : Block := { idx := some 354, target := '1' :: List.replicate 63 'F' }

/-- its target, -/
def target : ℕ := 2 * 16 ^ 63 - 1

/-- and the hashes of its header with the proofs 0 to 11, of which 9 and 10 hit. -/
def hashes : List ℕ :=
  [0x4b5a09519fdf3d2d596ef90ef5081ae7b7b8b6aa7725e17e89d12efca961212b,
    0x49ce402c71045f92aff91f4c003f786c080b51d4f5bf4d217c2c2c9616659f9f,
    0x4bdaed7cc16ac7a4731d74daef5c3705c61b720df3a908dc2b5588eefd1fbf1b,
    0xba11ecc017459878324e76ad61b28de5dbcfacbd00b915acc1e46e0d0292e17e,
    0x41f39b90b8a08169d01a3113ef6f9c4f2b11e6a8667ed5da6c62b4e0bc6ac0c1,
    0x6504c83ef0bc044f1b052422bf3a63822ba4b5514264c591de2054612c7f1fa1,
    0x471d68a13dd01fe17ac84e193f9ac9caa072ece37bb1eef5e92657896eb5f892,
    0x7efdbf030b1becf0ff17f2ff8e6605b0f747a1a864295e6f09755cc7ad080c0a,
    0xe10d67bfb69d4d567ea19c653f53ed2f0520473ac95d46c88fc4cc7bb7792d60,
    0x0238875e042cbdcc07301d59d5ae1b5f4e0a9aeaf4a7a3b6a9e60a812d3d2c9b,
    0x1c070f165ff60236634a632b80b3ec00191439a9bac7fc32f2d7b79654a9b95e,
    0x6087942244256804ad748d34213152ee9eafe42c14572f953c4ac4e618ee5afd]

/-- The environment that knows them. -/
def milled : Env := Env.knowing (hashes.zipIdx.map fun h =>
  { candidate with proofOfWork := some h.2, blockHash := some (fmt064x h.1) })

/-- The results of a round come in the reverse order. -/
def lastFirst : Arrival := ⟨fun _ results => results.reverse, fun _ results => results.reverse_perm⟩

/-- `mill_block` up to its yields, -/
def yielded (n : ℕ) : Search := (Rounds.forRange Search.finished
  (round milled candidate.unprovenHeader target 2) 2)^[n] .start

/-- and `mill_block_mp`. -/
def yieldedMp (n : ℕ) : Search := (Rounds.forRange Search.finished
  (roundMp milled candidate.unprovenHeader target lastFirst 2 2) 2)^[n] .start

end Sample

open GumptionChain.Milling.Sample in
/-- Two processes, two rounds a yield, two nonces a window: `mill_block` yields `None` twice
and then 9; `mill_block_mp` yields `None` and then 10, whose result comes first. -/
theorem nonce_search_workers :
    (Searches milled candidate target (yielded 2) ∧ (yielded 2).proofOfWork = none ∧
      Searches milled candidate target (yielded 3) ∧ (yielded 3).proofOfWork = some 9) ∧
    (SearchesMp milled candidate target 2 2 (yieldedMp 1) ∧ (yieldedMp 1).proofOfWork = none ∧
      SearchesMp milled candidate target 2 2 (yieldedMp 2) ∧
        (yieldedMp 2).proofOfWork = some 10) ∧
    (∃ fuel s', Rounds.resume Search.finished (round milled candidate.unprovenHeader target 2) 2
      fuel (yielded 2) = some s') ∧
    ∃ fuel s', Rounds.resume Search.finished
      (roundMp milled candidate.unprovenHeader target lastFirst 2 2) 2 fuel (yieldedMp 1) =
        some s' := by
  obtain ⟨hsearches, hresumes, hmp⟩ := @nonce_search milled candidate target (by decide +kernel) 2
    2 2 (by decide) (by decide)
  obtain ⟨hsearchesMp, hresumesMp⟩ := hmp lastFirst
  have hfresh : ∀ n ≤ 2, (yielded n).finished = false := by decide +kernel
  have hfreshMp : ∀ n ≤ 1, (yieldedMp n).finished = false := by decide +kernel
  have hyields : ∀ n ≤ 2, MillBlockYields milled candidate target 2 2 (yielded (n + 1)) :=
    fun n hn => Rounds.yielded_forRange (by decide) fun k hk => hfresh k (hk.trans hn)
  have hyieldsMp : ∀ n ≤ 1,
      MillBlockMpYields milled candidate target lastFirst 2 2 2 (yieldedMp (n + 1)) :=
    fun n hn => Rounds.yielded_forRange (by decide) fun k hk => hfreshMp k (hk.trans hn)
  refine ⟨⟨hsearches _ (hyields 1 (by decide)), by decide +kernel,
      hsearches _ (hyields 2 le_rfl), by decide +kernel⟩,
    ⟨hsearchesMp _ (hyieldsMp 0 (by decide)), by decide +kernel,
      hsearchesMp _ (hyieldsMp 1 le_rfl), by decide +kernel⟩, ?_, ?_⟩
  · exact (hresumes.yields _ (Or.inr (hyields 1 (by decide))) (by decide +kernel)).2
      (Or.inl (by decide))
  · exact (hresumesMp.yields _ (Or.inr (hyieldsMp 0 (by decide))) (by decide +kernel)).2
      (Or.inl (by decide))

end Milling
end GumptionChain
