import FlowExpr.Proofs.Grammar.Completeness
import FlowExpr.Proofs.Grammar.Soundness

namespace FlowExpr.Tree

-- What is parsed without a limit on height and depth is what stands for a tree.
theorem parseWithin_none_eq_ok_iff {tokens : List Token} {tree : Tree} :
    parseWithin none tokens = .ok tree ↔ Reads tokens tree := by
  rw [parseWithin, Outcome.map_eq_ok_iff]
  constructor
  · rintro ⟨p, hp, rfl⟩
    obtain ⟨tree, rfl, htree, _⟩ := isSound (by simp [Fits]) tokens 0 p hp
    exact htree
  · intro h
    exact ⟨.ofTree tree, h.parseRun_eq (by simp [HasRoom]), rfl⟩

-- The limit cuts off the trees that are too high, and no others.
theorem parse_eq_ok_iff {tokens : List Token} {tree : Tree} :
    parse tokens = .ok tree ↔ Reads tokens tree ∧ tree.height ≤ maxNesting := by
  rw [parse, parseWithin, Outcome.map_eq_ok_iff]
  constructor
  · rintro ⟨p, hp, rfl⟩
    obtain ⟨tree, rfl, htree, hfits⟩ := isSound (by simp [Fits, maxNesting]) tokens 0 p hp
    exact ⟨htree, hfits maxNesting rfl⟩
  · rintro ⟨htree, hheight⟩
    have hroom : HasRoom (some maxNesting) 0 tree.height := by
      intro most hmost
      obtain rfl : most = maxNesting := by simpa using hmost.symm
      omega
    exact ⟨.ofTree tree, htree.parseRun_eq hroom, rfl⟩

-- A token stream is an expression if and only if it consists of operands with operators between
-- them and its tree is not too high. The tree is the one that is divided at the last of the loosest
-- operators outside all parentheses, at every level.
theorem parse_groups_by_precedence (tokens : List Token) :
    (IsRun tokens → ∃! tree, Reads tokens tree) ∧
      ∀ tree, parse tokens = .ok tree ↔
        IsRun tokens ∧ Reads tokens tree ∧ tree.height ≤ maxNesting := by
  constructor
  · intro hrun
    obtain ⟨tree, htree⟩ := hrun.exists_reads
    exact ⟨tree, htree, fun other hother => hother.unique htree⟩
  · intro tree
    rw [parse_eq_ok_iff]
    constructor
    · intro h
      exact ⟨h.1.isRun, h⟩
    · intro h
      exact h.2

end FlowExpr.Tree
