import Rollup.Binding

/-!
# Proofs of balances

What the state manager serves of a balance is an opening (`GlobalState.opening`): the path of the
balance in the tree of its account, what else the account holds, and the path of the account in
the account tree. It is there for every account, even one that does not exist, and it leads to
the root. There is no other one: an opening that leads to the root, whoever has made it up,
is the one that is served, down to its paths (`opens_root_iff`), unless the hash has a collision
among what the trees hash and what the opening does.
-/

namespace Rollup

section Inclusion

variable [FluidexCommon] {lv : Levels} {s : GlobalState lv} {L : Ledger lv} {o : Opening}
  {a token : ℕ}

/-- What is hashed on the way to the root. -/
def Opening.hashInputs (o : Opening) : List (List Fr) :=
  (Merkle.pairs Tree.hash2 o.balancePath o.tokenId.val o.balance).map (fun p => [p.1, p.2]) ++
    (o.account.hashInputs ::
      (Merkle.pairs Tree.hash2 o.accountPath o.accountId.val o.account.hash).map
        fun p => [p.1, p.2])

/-- The opening of a balance that is served. -/
def GlobalState.opening (s : GlobalState lv) (accountId tokenId : ℕ) : Opening :=
  let proof := s.balanceFullProof accountId tokenId
  let account := s.getAccount accountId
  { accountId := accountId
    tokenId := tokenId
    balance := proof.leaf
    nonce := account.nonce
    sign := account.sign
    ay := account.ay
    orderRoot := account.orderRoot
    balancePath := proof.balancePath
    accountPath := proof.accountPath }

/-- An opening of the balance of an account, with the right number of siblings, in which the
    numbers that are packed have their widths. -/
structure Opening.Fits (o : Opening) (lv : Levels) (accountId tokenId : ℕ) : Prop where
  accountId : o.accountId = accountId
  tokenId : o.tokenId = tokenId
  balancePath : o.balancePath.length = lv.balanceLevels
  accountPath : o.accountPath.length = lv.accountLevels
  account : o.account.InRange

/-- What leads to the root of a tree is its leaf, and its path. -/
theorem Tree.fold_eq_root_iff {h : ℕ} {t : Tree h} (ht : t.IsMerkle) {i : ℕ} (hi : i < 2 ^ h)
    {path : List Fr} {v : Fr} (hpath : path.length = h) (hfree : NoCollision
      ((Merkle.pairs hash2 path i v).map (fun p => [p.1, p.2]) ++ t.hashInputs)) :
    Merkle.fold hash2 path i v = t.getRoot ↔
      v = t.getLeaf i ∧ path = (t.getProof i).pathElements := by
  constructor
  · intro hroot
    have hpairs : ∀ a ∈ Merkle.pairs hash2 path i v, ∀ b ∈ Merkle.children t.getValue h,
        hash2 a.1 a.2 = hash2 b.1 b.2 → a = b := by
      intro a ha b hb hab
      have hlist := hfree [a.1, a.2] (List.mem_append_left _ (List.mem_map_of_mem ha)) [b.1, b.2]
        (List.mem_append_right _ (List.mem_map_of_mem hb)) hab
      simp only [List.cons.injEq, and_true] at hlist
      exact Prod.ext hlist.1 hlist.2
    obtain ⟨hleaf, hp⟩ := Merkle.eq_of_fold_eq_root (k := 0) ht (by rw [Nat.zero_add, hpath]) hi
      hpairs hroot
    rw [hpath] at hp
    exact ⟨hleaf, hp.trans (t.pathElements_eq 0 h i).symm⟩
  · rintro ⟨rfl, rfl⟩
    rw [ht.represents.fold hi, Function.update_eq_self, ht.represents.getRoot]

/-- The opening that is served is that of the entry. -/
theorem Holds.opening_of (h : Holds s L) (a token : ℕ) :
    (s.opening a token).Of s a token (L.entry a) where
  accountId := rfl
  tokenId := rfl
  balance := congrArg BalanceProof.leaf (h.balanceFullProof_eq a token)
  nonce := congrArg AccountState.nonce (h.getAccount_eq a)
  sign := congrArg AccountState.sign (h.getAccount_eq a)
  ay := congrArg AccountState.ay (h.getAccount_eq a)
  orderRoot := congrArg AccountState.orderRoot (h.getAccount_eq a)
  balancePath := congrArg BalanceProof.balancePath (h.balanceFullProof_eq a token)
  accountPath := congrArg BalanceProof.accountPath (h.balanceFullProof_eq a token)

omit [FluidexCommon] in
/-- An entry has one opening. -/
theorem Opening.Of.unique {e : Entry lv} {o' : Opening} (h : o.Of s a token e)
    (h' : o'.Of s a token e) : o = o' := by
  cases o
  cases o'
  rw [Opening.mk.injEq]
  exact ⟨h.accountId.trans h'.accountId.symm, h.tokenId.trans h'.tokenId.symm,
    h.balance.trans h'.balance.symm, h.nonce.trans h'.nonce.symm, h.sign.trans h'.sign.symm,
    h.ay.trans h'.ay.symm, h.orderRoot.trans h'.orderRoot.symm,
    h.balancePath.trans h'.balancePath.symm, h.accountPath.trans h'.accountPath.symm⟩

theorem Shows.opening_iff (h : Shows s L) {k : ℕ} (hL : ∀ a, (L.entry a).Sound)
    (hp : ∀ a, (L.entry a).Packs k) (hk : k ≤ 2 ^ 39) (ha : a < 2 ^ lv.accountLevels)
    (htoken : token < 2 ^ lv.balanceLevels) (ho : o.Fits lv a token)
    (hfree : NoCollision (o.hashInputs ++ s.hashInputs)) :
    o.root = s.root ↔ o = s.opening a token := by
  have hof := h.opening_of a token
  constructor
  · intro hroot
    have hinputs : (L.entry a).hashInputs ⊆ o.hashInputs ++ s.hashInputs := by
      intro l hl
      rw [← h.hashInputsOf_eq] at hl
      exact List.mem_append_right _ (List.mem_append_right _
        (List.mem_flatMap.2 ⟨a, List.mem_range.2 ha, hl⟩))
    have hid : o.accountId.val = a := by
      rw [ho.accountId, Fr.val_natCast ha (lv.account_lt.trans (by decide))]
    have htokenId : o.tokenId.val = token := by
      rw [ho.tokenId, Fr.val_natCast htoken (lv.balance_lt.trans (by decide))]
    -- the account is a leaf of the account tree
    rw [Opening.root, hid] at hroot
    have haccount := (Tree.fold_eq_root_iff h.accountTree.isMerkle ha ho.accountPath <|
      hfree.mono fun l hl => by
        rcases List.mem_append.1 hl with hl | hl
        · refine List.mem_append_left _ (List.mem_append_right _ (List.mem_cons_of_mem _ ?_))
          rwa [hid]
        · exact List.mem_append_right _ (List.mem_append_left _ hl)).1 hroot
    obtain ⟨hhash, hpath⟩ := haccount
    rw [h.accountTree.getLeaf ha] at hhash
    have hstate : o.account = (L.entry a).state := by
      refine AccountState.hashInputs_inj ho.account ((hp a).inRange hk) (hfree _ ?_ _ ?_ hhash)
      · exact List.mem_append_left _ (List.mem_append_right _ List.mem_cons_self)
      · exact hinputs List.mem_cons_self
    -- the balance is a leaf of its balance tree
    have hbalanceRoot := congrArg AccountState.balanceRoot hstate
    change o.balanceRoot = _ at hbalanceRoot
    rw [(hL a).balanceRoot, Opening.balanceRoot, htokenId] at hbalanceRoot
    obtain ⟨hbalance, hbalancePath⟩ := (Tree.fold_eq_root_iff (hL a).balanceTree htoken
      ho.balancePath <| hfree.mono fun l hl => by
        rcases List.mem_append.1 hl with hl | hl
        · refine List.mem_append_left _ (List.mem_append_left _ ?_)
          rwa [htokenId]
        · refine hinputs (List.mem_cons_of_mem _ (List.mem_append_left _ ?_))
          exact List.mem_append_left _ hl).1 hbalanceRoot
    have ho' : o.Of s a token (L.entry a) :=
      { accountId := ho.accountId
        tokenId := ho.tokenId
        balance := hbalance
        nonce := congrArg AccountState.nonce hstate
        sign := congrArg AccountState.sign hstate
        ay := congrArg AccountState.ay hstate
        orderRoot := congrArg AccountState.orderRoot hstate
        balancePath := hbalancePath
        accountPath := hpath }
    exact ho'.unique hof
  · rintro rfl
    exact hof.root_eq h rfl (hL a) ha htoken

end Inclusion

/-- The opening with another balance. -/
def Opening.forged (o : Opening) (balance : Fr) : Opening := { o with balance := balance }

end Rollup
