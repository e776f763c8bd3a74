/-
# `RealBoy.Lib.Sweep` — shifts of long numbers

A long number stands in the places of a machine, a byte in each, and is worked
through place by place with a carry between (`Swept`).  Doubled from the least
significant byte (`Swept.left`), halved from the most significant
(`Swept.right`), and restored by the inverse shifts in reverse order
(`Swept.undo`).
-/
import RealBoy.Lib.Ripple
import RealBoy.Lib.Shift

namespace Sm83

/-- The number of some bytes, the least significant first. -/
def little (bs : List (BitVec 8)) : Nat := Nat.ofDigits 256 (bs.map BitVec.toNat)

/-- The number of some bytes, the most significant first. -/
def big (bs : List (BitVec 8)) : Nat := little bs.reverse

theorem little_lt (bs : List (BitVec 8)) : little bs < 256 ^ bs.length := by
  have hlt := Nat.ofDigits_lt_base_pow_length (b := 256) (l := bs.map BitVec.toNat) (by decide)
    fun d hd => by
      obtain ⟨v, -, rfl⟩ := List.mem_map.mp hd
      exact v.isLt
  rwa [List.length_map] at hlt

theorem big_cons (v : BitVec 8) (bs : List (BitVec 8)) :
    big (v :: bs) = big bs + 256 ^ bs.length * v.toNat := by
  rw [big, little, List.reverse_cons, List.map_append, Nat.ofDigits_append, List.length_map,
    List.length_reverse]
  simp [big, little]

theorem big_lt (bs : List (BitVec 8)) : big bs < 256 ^ bs.length := by
  have hlt := little_lt bs.reverse
  rwa [List.length_reverse] at hlt

/-- The top bit of a number is that of its first byte. -/
theorem top_iff (v : BitVec 8) (bs : List (BitVec 8)) :
    128 ≤ v.toNat ↔ 256 ^ (v :: bs).length ≤ 2 * big (v :: bs) := by
  have hlt := big_lt bs
  rw [big_cons, List.length_cons, pow_succ]
  generalize 256 ^ bs.length = n at hlt ⊢
  constructor
  · intro hle
    have hmul := Nat.mul_le_mul_left n hle
    omega
  · intro hle
    by_contra hnot
    have hmul : n * v.toNat ≤ n * 127 := Nat.mul_le_mul_left n (by omega)
    omega

namespace Sweep

variable {σ ι : Type}

/-- What a sweep sees of a machine: bytes at places, of which some matter to it,
and a carry. -/
structure View (σ ι : Type) where
  byte : σ → ι → BitVec 8
  carry : σ → Bool
  matters : ι → Prop

/-- From `s` to `s'` nothing that matters has changed. -/
structure Kept (m : View σ ι) (s s' : σ) : Prop where
  byte (p : ι) : m.matters p → m.byte s' p = m.byte s p
  carry : m.carry s' = m.carry s

/-- A pass of the shift `k` over the byte at `p`. -/
structure Passes (m : View σ ι) (k : Shift) (p : ι) (s s' : σ) : Prop where
  byte : m.byte s' p = k.value (m.byte s p) (m.carry s)
  carry : m.carry s' = k.out (m.byte s p)
  other (q : ι) : m.matters q → q ≠ p → m.byte s' q = m.byte s q

/-- Passes over some places, one after the other. -/
inductive Swept (m : View σ ι) : List (Shift × ι) → σ → σ → Prop where
  | nil {s s' : σ} : Kept m s s' → Swept m [] s s'
  | cons {k : Shift} {p : ι} {kps : List (Shift × ι)} {s s₁ s₂ s' : σ} : Kept m s s₁ →
      Passes m k p s₁ s₂ → Swept m kps s₂ s' → Swept m ((k, p) :: kps) s s'

variable {m : View σ ι} {kps : List (Shift × ι)} {s s' s'' : σ}

theorem Kept.rfl : Kept m s s := ⟨fun _ _ => Eq.refl _, Eq.refl _⟩

/-- A sweep leaves the places it does not visit. -/
theorem Swept.other (h : Swept m kps s s') {q : ι} (hm : m.matters q)
    (hq : q ∉ kps.map Prod.snd) : m.byte s' q = m.byte s q := by
  induction h with
  | nil hkept => exact hkept.byte q hm
  | cons hkept hpass _ ih =>
      obtain ⟨hne, hrest⟩ := not_or.mp (mt List.mem_cons.mpr hq)
      exact (ih hrest).trans ((hpass.other q hm hne).trans (hkept.byte q hm))

theorem Swept.of_append {kps' : List (Shift × ι)} (h : Swept m (kps ++ kps') s s'') :
    ∃ s', Swept m kps s s' ∧ Swept m kps' s' s'' := by
  induction kps generalizing s with
  | nil => exact ⟨s, .nil .rfl, h⟩
  | cons kp kps ih =>
      cases h with
      | cons hkept hpass hrest =>
          obtain ⟨s', hfirst, hlast⟩ := ih hrest
          exact ⟨s', .cons hkept hpass hfirst, hlast⟩

/-! ## Doubling and halving -/

/-- A pass of a shift, as one of a long number. -/
def passOf (k : Shift) (v : BitVec 8) (c : Bool) : Ripple.Pass :=
  ⟨v.toNat, v.toNat, (k.value v c).toNat, k.into v c, k.out v⟩

theorem passOf_adds {k : Shift} (hk : k.IsLeft) (v : BitVec 8) (c : Bool) :
    (passOf k v c).Adds 256 := by
  show (k.value v c).toNat + 256 * (k.out v).toNat = v.toNat + v.toNat + (k.into v c).toNat
  rw [Shift.double hk, two_mul]

theorem passOf_halves {k : Shift} (hk : k.IsRight) (v : BitVec 8) (c : Bool) :
    (passOf k v c).Halves 256 := Shift.halve hk v c

variable {k₀ k : Shift} {p : ι} {ps : List ι}

/-- The passes of a sweep, the carry running through them. -/
structure Passed (m : View σ ι) (k₀ k : Shift) (ps : List ι) (s s' : σ)
    (qs : List Ripple.Pass) : Prop where
  x : qs.map Ripple.Pass.x = (ps.map (m.byte s)).map BitVec.toNat
  y : qs.map Ripple.Pass.y = (ps.map (m.byte s)).map BitVec.toNat
  z : qs.map Ripple.Pass.z = (ps.map (m.byte s')).map BitVec.toNat
  isPass : ∀ q ∈ qs, ∃ k' v c, (k' = k₀ ∨ k' = k) ∧ q = passOf k' v c

theorem Passed.cons {qs : List Ripple.Pass} {v : BitVec 8} {c : Bool} (hv : m.byte s p = v)
    (hvalue : m.byte s' p = k₀.value v c) (hkeep : ∀ q ∈ ps, m.byte s'' q = m.byte s q)
    (h : Passed m k k ps s'' s' qs) : Passed m k₀ k (p :: ps) s s' (passOf k₀ v c :: qs) where
  x := by
    rw [List.map_cons, List.map_cons, List.map_cons, h.x, List.map_congr_left hkeep, hv]
    rfl
  y := by
    rw [List.map_cons, List.map_cons, List.map_cons, h.y, List.map_congr_left hkeep, hv]
    rfl
  z := by
    rw [List.map_cons, List.map_cons, List.map_cons, h.z, hvalue]
    rfl
  isPass := by
    rintro q hq
    rcases List.mem_cons.mp hq with rfl | hq
    · exact ⟨k₀, v, c, .inl rfl, rfl⟩
    · obtain ⟨k', v', c', hk', rfl⟩ := h.isPass q hq
      exact ⟨k', v', c', .inr (hk'.elim id id), rfl⟩

/-- The places and the shifts of a sweep with the shift `k`. -/
theorem map_snd_mk (k : Shift) (ps : List ι) : (ps.map (Prod.mk k)).map Prod.snd = ps := by
  rw [List.map_map]
  exact List.map_id ps

/-- The shift `k` at the first place, and `k'` at the others. -/
def sweepOf (k k' : Shift) : List ι → List (Shift × ι)
  | [] => []
  | p :: ps => (k, p) :: ps.map (Prod.mk k')

theorem sweepOf_same (k : Shift) (ps : List ι) : sweepOf k k ps = ps.map (Prod.mk k) := by
  cases ps <;> rfl

/-- The first pass of a sweep, and the rest. -/
theorem Swept.first (hm : ∀ q ∈ p :: ps, m.matters q) (hps : (p :: ps).Nodup)
    (h : Swept m ((k₀, p) :: ps.map (Prod.mk k)) s s') :
    ∃ s₂, Swept m (ps.map (Prod.mk k)) s₂ s' ∧ m.carry s₂ = k₀.out (m.byte s p) ∧
      m.byte s₂ p = k₀.value (m.byte s p) (m.carry s) ∧ m.byte s' p = m.byte s₂ p ∧
      ∀ q ∈ ps, m.byte s₂ q = m.byte s q := by
  obtain ⟨hp, hps⟩ := List.nodup_cons.mp hps
  obtain ⟨hmp, hmps⟩ := List.forall_mem_cons.mp hm
  cases h with
  | @cons _ _ _ _ s₁ s₂ _ hkept hpass hrest =>
      have hv : m.byte s₁ p = m.byte s p := hkept.byte p hmp
      have hout : m.byte s' p = m.byte s₂ p :=
        hrest.other hmp (by rwa [map_snd_mk])
      have hcarry := hpass.carry
      have hvalue := hpass.byte
      rw [hv] at hcarry hvalue
      rw [hkept.carry] at hvalue
      refine ⟨s₂, hrest, hcarry, hvalue, hout, fun q hq => ?_⟩
      have hne : q ≠ p := fun heq => hp (heq ▸ hq)
      exact (hpass.other q (hmps q hq) hne).trans (hkept.byte q (hmps q hq))

/-- A first pass, and passes through the rest. -/
theorem Swept.linked_cons (hm : ∀ q ∈ p :: ps, m.matters q) (hps : (p :: ps).Nodup)
    (h : Swept m ((k₀, p) :: ps.map (Prod.mk k)) s s')
    (hrest : ∀ s₂, Swept m (ps.map (Prod.mk k)) s₂ s' →
      ∃ qs, Ripple.Linked (m.carry s₂) qs (m.carry s') ∧ Passed m k k ps s₂ s' qs) :
    ∃ qs, Ripple.Linked (k₀.into (m.byte s p) (m.carry s)) qs (m.carry s') ∧
      Passed m k₀ k (p :: ps) s s' qs := by
  obtain ⟨s₂, hswept, hcarry, hvalue, hout, hkeep⟩ := h.first hm hps
  obtain ⟨qs, hlinked, hpassed⟩ := hrest s₂ hswept
  rw [hcarry] at hlinked
  exact ⟨_, .cons (passOf k₀ (m.byte s p) (m.carry s)) hlinked,
    hpassed.cons rfl (hout.trans hvalue) hkeep⟩

/-- The carry runs through a sweep whose shift takes it in. -/
theorem Swept.linked (hk : ∀ v c, k.into v c = c) (hm : ∀ q ∈ ps, m.matters q)
    (hps : ps.Nodup) (h : Swept m (ps.map (Prod.mk k)) s s') :
    ∃ qs, Ripple.Linked (m.carry s) qs (m.carry s') ∧ Passed m k k ps s s' qs := by
  induction ps generalizing s with
  | nil =>
      cases h with
      | nil hkept =>
          exact ⟨[], hkept.carry ▸ .nil _, rfl, rfl, rfl, fun _ hq => absurd hq List.not_mem_nil⟩
  | cons p ps ih =>
      have hall := h.linked_cons hm hps fun s₂ =>
        ih (List.forall_mem_cons.mp hm).2 (List.nodup_cons.mp hps).2
      rwa [hk] at hall

/-- **The carry runs through a sweep**, whatever its first shift takes in. -/
theorem Swept.linked_first (hk : ∀ v c, k.into v c = c) (hm : ∀ q ∈ p :: ps, m.matters q)
    (hps : (p :: ps).Nodup) (h : Swept m ((k₀, p) :: ps.map (Prod.mk k)) s s') :
    ∃ qs, Ripple.Linked (k₀.into (m.byte s p) (m.carry s)) qs (m.carry s') ∧
      Passed m k₀ k (p :: ps) s s' qs :=
  h.linked_cons hm hps fun _ hrest =>
    hrest.linked hk (List.forall_mem_cons.mp hm).2 (List.nodup_cons.mp hps).2

section

variable {qs : List Ripple.Pass}

theorem Passed.length (h : Passed m k₀ k ps s s' qs) : qs.length = ps.length := by
  have hlength := congrArg List.length h.x
  rwa [List.length_map, List.length_map, List.length_map] at hlength

theorem Passed.little (h : Passed m k₀ k ps s s' qs) :
    Ripple.number 256 Ripple.Pass.x qs = little (ps.map (m.byte s)) ∧
      Ripple.number 256 Ripple.Pass.y qs = little (ps.map (m.byte s)) ∧
      Ripple.number 256 Ripple.Pass.z qs = little (ps.map (m.byte s')) :=
  ⟨congrArg _ h.x, congrArg _ h.y, congrArg _ h.z⟩

theorem Passed.big (h : Passed m k₀ k ps s s' qs) :
    Ripple.numberDown 256 Ripple.Pass.x qs = big (ps.map (m.byte s)) ∧
      Ripple.numberDown 256 Ripple.Pass.z qs = big (ps.map (m.byte s')) := by
  rw [Ripple.numberDown, Ripple.numberDown, h.x, h.z, Sm83.big, Sm83.big, Sm83.little,
    Sm83.little, List.map_reverse, List.map_reverse]
  exact ⟨rfl, rfl⟩

end

/-- **A sweep to the left doubles** the number, the least significant byte first. -/
theorem Swept.left (hk₀ : k₀.IsLeft) (hm : ∀ q ∈ p :: ps, m.matters q) (hps : (p :: ps).Nodup)
    (h : Swept m ((k₀, p) :: ps.map (Prod.mk .rl)) s s') :
    little ((p :: ps).map (m.byte s')) + 256 ^ (p :: ps).length * (m.carry s').toNat =
      2 * little ((p :: ps).map (m.byte s)) + (k₀.into (m.byte s p) (m.carry s)).toNat := by
  obtain ⟨qs, hlinked, hpassed⟩ := h.linked_first (fun _ _ => rfl) hm hps
  obtain ⟨hx, hy, hz⟩ := hpassed.little
  have htotal := Ripple.add_total hlinked (m := 256) fun q hq => by
    obtain ⟨k', v, c, hk', rfl⟩ := hpassed.isPass q hq
    exact passOf_adds (hk'.elim (· ▸ hk₀) (· ▸ trivial)) v c
  rwa [hx, hy, hz, hpassed.length, ← two_mul] at htotal

/-- **A sweep to the right halves** it, the most significant byte first. -/
theorem Swept.right (hk₀ : k₀.IsRight) (hm : ∀ q ∈ p :: ps, m.matters q) (hps : (p :: ps).Nodup)
    (h : Swept m ((k₀, p) :: ps.map (Prod.mk .rr)) s s') :
    2 * big ((p :: ps).map (m.byte s')) + (m.carry s').toNat =
      big ((p :: ps).map (m.byte s)) +
        256 ^ (p :: ps).length * (k₀.into (m.byte s p) (m.carry s)).toNat := by
  obtain ⟨qs, hlinked, hpassed⟩ := h.linked_first (fun _ _ => rfl) hm hps
  obtain ⟨hx, hz⟩ := hpassed.big
  have htotal := Ripple.halve_total hlinked (m := 256) fun q hq => by
    obtain ⟨k', v, c, hk', rfl⟩ := hpassed.isPass q hq
    exact passOf_halves (hk'.elim (· ▸ hk₀) (· ▸ trivial)) v c
  rwa [hx, hz, hpassed.length] at htotal

/-! ## Shifts of numbers -/

theorem double_total {x z n : Nat} {c : Bool} (hz : z < n) (h : z + n * c.toNat = 2 * x) :
    z = 2 * x % n ∧ (c = true ↔ n ≤ 2 * x) := by
  rw [← h, Nat.add_mul_mod_self_left, Nat.mod_eq_of_lt hz]
  refine ⟨rfl, ?_⟩
  cases c with
  | false => exact ⟨nofun, fun hle => absurd hle (by rw [Bool.toNat_false]; omega)⟩
  | true => exact ⟨fun _ => by rw [Bool.toNat_true]; omega, fun _ => rfl⟩

theorem halve_total {x z : Nat} {c : Bool} (h : 2 * z + c.toNat = x) :
    z = x / 2 ∧ (c = true ↔ x % 2 = 1) := by
  cases c with
  | false =>
      rw [Bool.toNat_false] at h
      exact ⟨by omega, nofun, fun hodd => absurd hodd (by omega)⟩
  | true =>
      rw [Bool.toNat_true] at h
      exact ⟨by omega, fun _ => by omega, fun _ => rfl⟩

/-- A number below an even `n`, read as a signed one. -/
theorem bmod_eq {x n : Nat} (hn : n % 2 = 0) (hx : x < n) :
    (x : Int).bmod n = if n ≤ 2 * x then (x : Int) - n else x := by
  have hself : (x : Int) % n = x := Int.emod_eq_of_lt (by omega) (by omega)
  rw [Int.bmod_def, hself]
  split <;> split <;> omega

theorem halve_signed {x z n : Nat} {c top : Bool} (hn : n % 2 = 0) (hx : x < n) (hz : z < n)
    (htop : top = true ↔ n ≤ 2 * x) (h : 2 * z + c.toNat = x + n * top.toNat) :
    (z : Int).bmod n = (x : Int).bmod n / 2 ∧ (c = true ↔ x % 2 = 1) := by
  rw [bmod_eq hn hx, bmod_eq hn hz]
  have hc := c.toNat_le
  have hbit : c = true ↔ c.toNat = 1 := by cases c <;> decide
  rw [hbit]
  cases top with
  | false =>
      have hlow : ¬ n ≤ 2 * x := fun hle => nomatch htop.mpr hle
      rw [Bool.toNat_false, Nat.mul_zero] at h
      rw [if_neg hlow, if_neg (by omega)]
      omega
  | true =>
      have hhigh : n ≤ 2 * x := htop.mp rfl
      rw [Bool.toNat_true, Nat.mul_one] at h
      rw [if_pos hhigh, if_pos (by omega)]
      omega

/-- **SLA, then RL.** -/
theorem Swept.sla (hne : ps ≠ []) (hm : ∀ q ∈ ps, m.matters q) (hps : ps.Nodup)
    (h : Swept m (sweepOf .sla .rl ps) s s') :
    little (ps.map (m.byte s')) = 2 * little (ps.map (m.byte s)) % 256 ^ ps.length ∧
      (m.carry s' = true ↔ 256 ^ ps.length ≤ 2 * little (ps.map (m.byte s))) := by
  obtain ⟨p, ps, rfl⟩ := List.exists_cons_of_ne_nil hne
  have htotal := Swept.left (show Shift.IsLeft .sla from trivial) hm hps h
  have hlt := little_lt ((p :: ps).map (m.byte s'))
  rw [List.length_map] at hlt
  exact double_total hlt htotal

/-- **SRL, then RR.** -/
theorem Swept.srl (hne : ps ≠ []) (hm : ∀ q ∈ ps, m.matters q) (hps : ps.Nodup)
    (h : Swept m (sweepOf .srl .rr ps) s s') :
    big (ps.map (m.byte s')) = big (ps.map (m.byte s)) / 2 ∧
      (m.carry s' = true ↔ big (ps.map (m.byte s)) % 2 = 1) := by
  obtain ⟨p, ps, rfl⟩ := List.exists_cons_of_ne_nil hne
  exact halve_total (Swept.right (show Shift.IsRight .srl from trivial) hm hps h)

/-- **SRA, then RR**: the number as a signed one. -/
theorem Swept.sra (hne : ps ≠ []) (hm : ∀ q ∈ ps, m.matters q) (hps : ps.Nodup)
    (h : Swept m (sweepOf .sra .rr ps) s s') :
    (big (ps.map (m.byte s')) : Int).bmod (256 ^ ps.length) =
        (big (ps.map (m.byte s)) : Int).bmod (256 ^ ps.length) / 2 ∧
      (m.carry s' = true ↔ big (ps.map (m.byte s)) % 2 = 1) := by
  obtain ⟨p, ps, rfl⟩ := List.exists_cons_of_ne_nil hne
  have htotal := Swept.right (show Shift.IsRight .sra from trivial) hm hps h
  have hlt (t : σ) : big ((p :: ps).map (m.byte t)) < 256 ^ (p :: ps).length := by
    have hlt := big_lt ((p :: ps).map (m.byte t))
    rwa [List.length_map] at hlt
  have htop : Shift.sra.into (m.byte s p) (m.carry s) = true ↔
      256 ^ (p :: ps).length ≤ 2 * big ((p :: ps).map (m.byte s)) := by
    have htop := top_iff (m.byte s p) (ps.map (m.byte s))
    rw [List.length_cons, List.length_map] at htop
    exact decide_eq_true_iff.trans htop
  refine halve_signed ?_ (hlt s) (hlt s') htop htotal
  rw [List.length_cons, pow_succ]
  omega

/-! ## Inverses -/

/-- **A sweep is undone** by the inverse shift over the same places in reverse
order.  Where the inverse needs the carry that went out (`needs`), it also gives
back the one that came in. -/
theorem Swept.undo {k' : Shift} (h : Swept m (ps.map (Prod.mk k)) s s') (needs : Prop)
    (h' : Swept m (ps.reverse.map (Prod.mk k')) s' s'') (hm : ∀ q ∈ ps, m.matters q)
    (hps : ps.Nodup) (hvalue : ∀ v c c', (needs → c' = k.out v) → k'.value (k.value v c) c' = v)
    (hcarry : needs → ∀ v c, k'.out (k.value v c) = c) :
    (∀ q ∈ ps, m.byte s'' q = m.byte s q) ∧ (needs → m.carry s'' = m.carry s) := by
  induction ps generalizing s s'' with
  | nil =>
      cases h with
      | nil hkept =>
          cases h' with
          | nil hkept' =>
              exact ⟨fun _ hq => absurd hq List.not_mem_nil,
                fun _ => hkept'.carry.trans hkept.carry⟩
  | cons p ps ih =>
      obtain ⟨hp, hnodup⟩ := List.nodup_cons.mp hps
      obtain ⟨hmp, hmps⟩ := List.forall_mem_cons.mp hm
      obtain ⟨s₂, hforth, hout, hnew, hlast, hkeep⟩ := h.first hm hps
      rw [List.reverse_cons, List.map_append] at h'
      obtain ⟨t, hback, hend⟩ := h'.of_append
      obtain ⟨hbytes, hsame⟩ := ih hforth hback hmps hnodup
      have htp : m.byte t p = k.value (m.byte s p) (m.carry s) := by
        have hstay : m.byte t p = m.byte s' p :=
          hback.other hmp (by rwa [map_snd_mk, List.mem_reverse])
        rw [hstay, hlast, hnew]
      have htcarry (hn : needs) : m.carry t = k.out (m.byte s p) := (hsame hn).trans hout
      have hone : Swept m ((k', p) :: ([] : List ι).map (Prod.mk k')) t s'' := hend
      obtain ⟨u, hrest, hucarry, hubyte, hend', -⟩ :=
        hone.first (List.forall_mem_singleton.mpr hmp) (List.nodup_singleton p)
      cases hrest with
      | nil hkept =>
          constructor
          · intro q hq
            rcases List.mem_cons.mp hq with rfl | hq
            · rw [hend', hubyte, htp]
              exact hvalue _ _ _ htcarry
            · have hne : q ∉ ([p].map (Prod.mk k')).map Prod.snd := by
                rw [map_snd_mk, List.mem_singleton]
                exact fun heq => hp (heq ▸ hq)
              exact (hend.other (hmps q hq) hne).trans ((hbytes q hq).trans (hkeep q hq))
          · intro hn
            rw [hkept.carry, hucarry, htp]
            exact hcarry hn _ _

end Sweep

end Sm83
