import SwapFees.Proofs.Ledger.Stable

namespace SwapFees

namespace Ledger

def Alive (l : Ledger) : Prop :=
  ∀ who, l.free who ≠ 0 → ¬ ((l.account who).providers = 0 ∧ (l.account who).sufficients = 0)

variable {l : Ledger}

theorem Alive.putAccount (h : l.Alive) (who : AccountId) (a : Account) :
    (l.putAccount who a).Alive := by
  intro q hfree
  unfold free at hfree
  by_cases hq : q = who
  · rw [hq, account_putAccount_self] at hfree ⊢
    split at hfree
    · exact absurd rfl hfree
    · rename_i halive
      rwa [if_neg halive]
  · rw [account_putAccount_of_ne _ hq] at hfree ⊢
    exact h q hfree

theorem stable_alive : Stable Alive where
  issued _ h := h
  setFree who n h := by
    rw [setFree_eq]
    exact h.putAccount who _
  takeHolding _ _ _ htake h := by
    unfold takeHolding at htake
    dsimp only at htake
    split at htake
    · rw [← (Prod.mk.inj htake).2]
      exact h.putAccount _ _
    · rw [← (Prod.mk.inj htake).2]
      exact h
  increase hi h := by
    rcases increase_ok hi with ⟨-, hsame⟩ | ⟨t, -, hadded⟩
    · rw [hsame]
      exact h
    · rw [hadded]
      unfold addHolding
      split
      · exact h
      · exact h.putAccount _ _
  setSupply id n h := by
    unfold setSupply
    split
    · exact h
    · exact h

theorem alive_of_entries
    (h : ∀ e ∈ l.accounts.toList, ¬ (e.2.providers = 0 ∧ e.2.sufficients = 0)) : l.Alive := by
  intro who hfree
  unfold free account at hfree
  unfold account
  cases ha : l.accounts.get? who with
  | none =>
    rw [ha] at hfree
    exact absurd rfl hfree
  | some a => exact h (who, a) (SortedMap.mem_toList.2 ha)

end Ledger

namespace Genesis

variable {g : Genesis} {s : Settings}

theorem alive_endow {minBalance : Amount} {balances : List (AccountId × Amount)} {l : Ledger}
    (h : endow minBalance balances = .ok l) : l.Alive := by
  unfold endow at h
  split at h
  · cases h
  split at h
  · cases h
  split at h
  · cases h
    apply Ledger.alive_of_entries
    intro e he hdead
    have hentry := SortedMap.mem_of_get?_ofList (SortedMap.mem_toList.1 he)
    obtain ⟨b, -, hb⟩ := List.mem_map.1 hentry
    have haccount := congrArg Prod.snd hb
    dsimp only at haccount
    rw [← haccount] at hdead
    exact Nat.one_ne_zero hdead.1
  · cases h

theorem Reaches.alive {w : World} (h : g.Reaches s w) : w.chain.ledger.Alive := by
  apply h.ledger Ledger.stable_alive
  intro c hb
  obtain ⟨l₁, l₂, l₃, h₁, h₂, h₃, hledger⟩ := ledger_build hb
  have hdefined : l₂.Alive := define_keeps h₂ (fun _ _ _ hl => hl) (alive_endow h₁)
  have hheld : l₃.Alive := hold_keeps h₃ Ledger.stable_alive.mint hdefined
  rw [hledger]
  exact hheld.putAccount _ _

end Genesis

end SwapFees
