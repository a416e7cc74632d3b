import SwapFees.Proofs.Steps
import SwapFees.Proofs.Value

namespace SwapFees

theorem SortedMap.total_ofList_le {κ υ : Type} [Ranked κ] (f : υ → Nat) (es : List (κ × υ)) :
    (SortedMap.ofList es).total f ≤ (es.map fun e => f e.2).sum := by
  suffices h : ∀ m : SortedMap κ υ,
      (es.foldl (fun m e => m.insert e.1 e.2) m).total f ≤ m.total f + (es.map fun e => f e.2).sum by
    have := h ∅
    rwa [total_empty, Nat.zero_add] at this
  induction es with
  | nil => exact fun m => Nat.le_refl _
  | cons e es ih =>
    intro m
    have := ih (m.insert e.1 e.2)
    have := m.total_insert f e.1 e.2
    rw [List.map_cons, List.sum_cons, List.foldl_cons]
    omega

theorem SortedMap.mem_of_get?_ofList {κ υ : Type} [Ranked κ] {es : List (κ × υ)} {k : κ} {v : υ}
    (h : (SortedMap.ofList es).get? k = some v) : (k, v) ∈ es := by
  suffices hall : ∀ m : SortedMap κ υ,
      (es.foldl (fun m e => m.insert e.1 e.2) m).get? k = some v →
        m.get? k = some v ∨ (k, v) ∈ es by
    rcases hall ∅ h with h | h
    · cases h
    · exact h
  clear h
  induction es with
  | nil => exact fun m h => .inl h
  | cons e es ih =>
    intro m h
    rcases ih (m.insert e.1 e.2) h with h | h
    · by_cases he : e.1 = k
      · rw [he, get?_insert_self] at h
        obtain rfl := Option.some.inj h
        exact .inr (he ▸ List.mem_cons_self)
      · rw [get?_insert_of_ne _ _ he] at h
        exact .inl h
    · exact .inr (List.mem_cons_of_mem _ h)

namespace Ledger

def AllAnchored (l : Ledger) : Prop := ∀ who, l.Anchored who

variable {l l' : Ledger} {who q : AccountId}

theorem anchored_addProvider (h : l.minBalance ≤ l.free who ∨ l.free who = 0) :
    (l.addProvider who).Anchored who := by
  refine (free_putAccount ?_).2
  unfold Account.Anchored
  split
  · exact Nat.succ_pos _
  · rename_i hlt
    exact h.resolve_left hlt

theorem Anchored.addProvider (ha : l.Anchored q) (who : AccountId) :
    (l.addProvider who).Anchored q := by
  by_cases hq : q = who
  · subst hq
    refine anchored_addProvider ?_
    unfold Anchored Account.Anchored at ha
    split at ha
    · rename_i hle
      exact .inl hle
    · exact .inr ha
  · exact (sameFor_putAccount _ hq).anchored ha

theorem Anchored.mint {c : Coin} (ha : l.Anchored q) (h : l.mint who c = .ok l') : l'.Anchored q :=
  (mint_effect h).1.anchored_at ha

theorem Anchored.burn {c : Coin} {n : Amount} (ha : l.Anchored q)
    (h : l.burn who c = .ok (n, l')) : l'.Anchored q :=
  (burn_effect h).1.anchored_at ha

theorem Anchored.transfer {source dest : AccountId} {c : Coin} {p : Preservation}
    (ha : l.Anchored q) (h : l.transfer source dest c p = .ok l') : l'.Anchored q := by
  by_cases hne : source = dest
  · subst hne
    rwa [transfer_self h]
  · obtain ⟨l₁, h₁, h₂, -⟩ := transfer_effect hne h
    exact h₂.anchored_at (h₁.anchored_at ha)

theorem Anchored.exchange {tokenIn tokenOut : Coin} (ha : l.Anchored q)
    (h : l.Exchanges who tokenIn tokenOut l') : l'.Anchored q := by
  obtain ⟨n, l₁, hb, hm⟩ := h
  split at hm
  · exact hm ▸ ha.burn hb
  · exact (ha.burn hb).mint hm

end Ledger

theorem Step.anchored {s : Settings} {growing : Prop} {c c' : Chain} (h : Step s growing c c')
    {who : AccountId} (ha : c.ledger.Anchored who) : c'.ledger.Anchored who := by
  cases h with
  | move h =>
    cases h with
    | pay hs hd h => exact ha.transfer h
    | burn hw h => exact ha.burn h
    | debit hw h => exact ha.burn h
    | trade hw ht hx => exact ha.exchange hx
    | announce e => exact ha
    | remember last => exact ha
  | _ => exact ha

theorem Step.covered {s : Settings} {growing : Prop} {c c' : Chain} (h : Step s growing c c')
    (hc : c.ledger.Covered) : c'.ledger.Covered := by
  cases h with
  | move h => exact (h.value_le hc).1
  | _ => exact hc

namespace Genesis

open Ledger

variable {g : Genesis} {s : Settings} {l l' : Ledger}

theorem ledger_build {c : Chain} (h : g.build s = .ok c) :
    ∃ l₁ l₂ l₃, endow g.minBalance g.balances = .ok l₁ ∧ define l₁ g.tokens = .ok l₂ ∧
      hold l₂ g.holdings = .ok l₃ ∧ c.ledger = l₃.addProvider s.feeAccount := by
  obtain ⟨l₁, l₂, l₃, ps, base, registry, rate, h₁, h₂, h₃, -, rfl⟩ := build_ok h
  exact ⟨l₁, l₂, l₃, h₁, h₂, h₃, rfl⟩

theorem covered_endow {minBalance : Amount} {balances : List (AccountId × Amount)}
    (h : endow minBalance balances = .ok l) : l.Covered := by
  unfold endow at h
  split at h
  · cases h
  · rename_i issuance hsum
    split at h
    · cases h
    · split at h
      · cases h
        intro j
        cases j with
        | none =>
          change SortedMap.total _ _ ≤ issuance.toNat
          rw [Word.ofNat?_eq_some.1 hsum]
          refine Nat.le_trans (SortedMap.total_ofList_le _ _) (Nat.le_of_eq ?_)
          rw [List.map_map]
          rfl
        | some id => exact Nat.zero_le _
      · cases h

/-- What each token that is put and each holding that is minted keeps, the middle stages keep. -/
theorem define_keeps {P : Ledger → Prop} {ts : List (AssetId × Token)} (h : define l ts = .ok l')
    (step : ∀ e ∈ ts, ∀ l, P l → P (l.putToken e.1 e.2)) (hp : P l) : P l' := by
  induction ts generalizing l with
  | nil =>
    cases h
    exact hp
  | cons e ts ih =>
    unfold define at h
    split at h
    · cases h
    · split at h
      · cases h
      · exact ih h (fun e he => step e (List.mem_cons_of_mem _ he)) (step e List.mem_cons_self l hp)

theorem hold_keeps {P : Ledger → Prop} {hs : List (AssetId × AccountId × Amount)}
    (h : hold l hs = .ok l')
    (step : ∀ {l l' : Ledger} {who : AccountId} {c : Coin}, l.mint who c = .ok l' → P l → P l')
    (hp : P l) : P l' := by
  induction hs generalizing l with
  | nil =>
    cases h
    exact hp
  | cons e hs ih =>
    obtain ⟨id, who, n⟩ := e
    unfold hold at h
    split at h
    · cases h
    · rename_i l₁ hm
      have hm : l.mint who ⟨.issued id, n⟩ = .ok l₁ := hm
      exact ih h (step hm hp)

theorem covered_define {ts : List (AssetId × Token)} (h : define l ts = .ok l')
    (ht : ∀ e ∈ ts, e.2.holdings.total Word.toNat ≤ e.2.supply.toNat) (hc : l.Covered) :
    l'.Covered := by
  refine define_keeps h (fun e he l hc j => ?_) hc
  rw [circulating_putToken, issued_putToken]
  split
  · exact ht e he
  · exact hc j

theorem covered_hold {hs : List (AssetId × AccountId × Amount)} (h : hold l hs = .ok l')
    (hc : l.Covered) : l'.Covered :=
  hold_keeps h (fun hm hc => (mint_books hm hc).1) hc

theorem anchored_endow {minBalance : Amount} {balances : List (AccountId × Amount)}
    (h : endow minBalance balances = .ok l) (hmin : minBalance ≠ 0) : l.AllAnchored := by
  unfold endow at h
  split at h
  · cases h
  · split at h
    · cases h
    · rename_i hsmall
      split at h
      · cases h
        intro who
        unfold Anchored account
        dsimp only
        cases ha : (SortedMap.ofList (balances.map fun e =>
          (e.1, ({ providers := 1, free := e.2 } : Account)))).get? who with
        | none =>
          -- Nothing is held here, and that is less than the least balance.
          have hpos : ¬ minBalance ≤ 0 := by
            rw [Word.le_def, Word.toNat_zero, Nat.le_zero, Word.toNat_eq_zero]
            exact hmin
          exact (if_neg hpos).mpr rfl
        | some a =>
          obtain ⟨e, he, hea⟩ := List.mem_map.1 (SortedMap.mem_of_get?_ofList ha)
          obtain ⟨-, rfl⟩ := Prod.mk.inj hea
          have hle : minBalance ≤ e.2 := by
            apply Nat.le_of_not_lt
            intro hlt
            exact hsmall (List.any_eq_true.2 ⟨e, he, decide_eq_true hlt⟩)
          exact (if_pos hle).mpr Nat.one_pos
      · cases h

theorem anchored_define {ts : List (AssetId × Token)} (h : define l ts = .ok l')
    (ha : l.AllAnchored) : l'.AllAnchored :=
  define_keeps h (fun _ _ _ ha => ha) ha

theorem anchored_hold {hs : List (AssetId × AccountId × Amount)} (h : hold l hs = .ok l')
    (ha : l.AllAnchored) : l'.AllAnchored :=
  hold_keeps h (fun hm ha q => (ha q).mint hm) ha

theorem minBalance_endow {minBalance : Amount} {balances : List (AccountId × Amount)}
    (h : endow minBalance balances = .ok l) : l.minBalance = minBalance := by
  unfold endow at h
  split at h
  · cases h
  · split at h
    · cases h
    · split at h
      · cases h
        rfl
      · cases h

theorem minBalance_define {ts : List (AssetId × Token)} (h : define l ts = .ok l') :
    l'.minBalance = l.minBalance :=
  define_keeps (P := fun l₁ => l₁.minBalance = l.minBalance) h (fun _ _ _ hp => hp) rfl

theorem minBalance_hold {hs : List (AssetId × AccountId × Amount)} (h : hold l hs = .ok l') :
    l'.minBalance = l.minBalance :=
  hold_keeps (P := fun l₁ => l₁.minBalance = l.minBalance) h
    (fun hm hp => (minBalance_eq (mint_effect hm).1.least).trans hp) rfl

theorem minBalance_build {c : Chain} (h : g.build s = .ok c) : c.ledger.minBalance = g.minBalance := by
  obtain ⟨l₁, l₂, l₃, h₁, h₂, h₃, hledger⟩ := ledger_build h
  calc c.ledger.minBalance = l₃.minBalance := by rw [hledger, addProvider, minBalance_putAccount]
    _ = l₂.minBalance := minBalance_hold h₃
    _ = l₁.minBalance := minBalance_define h₂
    _ = g.minBalance := minBalance_endow h₁

/-- The ledger stays covered if the tokens come so. -/
theorem Reaches.covered {w : World} (h : g.Reaches s w)
    (ht : ∀ e ∈ g.tokens, e.2.holdings.total Word.toNat ≤ e.2.supply.toNat) :
    w.chain.ledger.Covered := by
  obtain ⟨c, ops, hb, rfl⟩ := h
  obtain ⟨l₁, l₂, l₃, h₁, h₂, h₃, hledger⟩ := ledger_build hb
  refine World.replay_keeps_of_steps (P := fun c => c.ledger.Covered) (fun _ _ _ => trivial)
    Step.covered _ ?_
  have hc := covered_hold h₃ (covered_define h₂ ht (covered_endow h₁))
  exact hledger ▸ covered_addProvider hc _

theorem Reaches.anchored_of_build {w : World} {who : AccountId} (h : g.Reaches s w)
    (hbuild : ∀ c, g.build s = .ok c → c.ledger.Anchored who) : w.chain.ledger.Anchored who := by
  obtain ⟨c, ops, hb, rfl⟩ := h
  exact World.replay_keeps_of_steps (P := fun c => c.ledger.Anchored who) (fun _ _ _ => trivial)
    (fun h => h.anchored) _ (hbuild c hb)

theorem anchored_build (hmin : g.minBalance ≠ 0) {c : Chain} (h : g.build s = .ok c) :
    c.ledger.AllAnchored := by
  obtain ⟨l₁, l₂, l₃, h₁, h₂, h₃, hledger⟩ := ledger_build h
  intro who
  exact hledger ▸ (anchored_hold h₃ (anchored_define h₂ (anchored_endow h₁ hmin)) who).addProvider _

/-- With a least balance all accounts stay anchored. -/
theorem Reaches.anchored {w : World} (h : g.Reaches s w) (hmin : g.minBalance ≠ 0) :
    w.chain.ledger.AllAnchored :=
  fun who => h.anchored_of_build fun _ hb => anchored_build hmin hb who

/-- The fee account stays anchored also without a least balance: it has a provider of its own. -/
theorem Reaches.feeAccount_anchored {w : World} (h : g.Reaches s w) :
    w.chain.ledger.Anchored s.feeAccount := by
  refine h.anchored_of_build fun c hb => ?_
  by_cases hmin : g.minBalance = 0
  · have hleast := minBalance_build hb
    obtain ⟨l₁, l₂, l₃, -, -, -, hledger⟩ := ledger_build hb
    rw [hledger] at hleast ⊢
    unfold addProvider at hleast
    rw [minBalance_putAccount, hmin] at hleast
    refine anchored_addProvider (.inl ?_)
    rw [hleast, Word.le_def, Word.toNat_zero]
    exact Nat.zero_le _
  · exact anchored_build hmin hb _

end Genesis

end SwapFees
