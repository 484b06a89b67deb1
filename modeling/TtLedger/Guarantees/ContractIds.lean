import TtLedger.Identity.SymbolText

/-!
# Distinct contracts, distinct ids

The canonical resolver accepts the symbols of options and futures that denote a contract, and the
id it gives tells an option from every other contract. A future's id has only its root, since the
day of its expiry cannot be recovered from the symbol: two contract months of one root share an id
(`not_distinguishesContracts`), and no other two contracts do (`identifiesContracts`).
-/

namespace TtLedger

/-- Accepted symbols of distinct contracts have distinct ids. -/
def DistinguishesContracts (resolver : CanonicalSymbolResolver) : Prop :=
  ∀ {it it' : Option String} {s s' : String} {r r' : ResolvedSecurity} {c c' : Contract},
    resolver.resolve s it = .ok r → resolver.resolve s' it' = .ok r' →
      Denotes it s c → Denotes it' s' c' → c ≠ c' → r.securityId ≠ r'.securityId

/-- The accepted symbols are those that denote a contract, and two of them have one id only for one
contract, or for futures with one root. -/
structure IdentifiesContracts (resolver : CanonicalSymbolResolver) : Prop where
  denotes : ∀ {it : Option String} {s : String}, IsStructured it →
    ((∃ r, resolver.resolve s it = .ok r) ↔ ∃ c, Denotes it s c)
  unique : ∀ {it : Option String} {s : String} {c c' : Contract},
    Denotes it s c → Denotes it s c' → c = c'
  ids : ∀ {it it' : Option String} {s s' : String} {r r' : ResolvedSecurity} {c c' : Contract},
    resolver.resolve s it = .ok r → resolver.resolve s' it' = .ok r' →
      Denotes it s c → Denotes it' s' c' →
        (r.securityId = r'.securityId ↔
          c = c' ∨ ∃ root, c.futureRoot = some root ∧ c'.futureRoot = some root)

section Resolver

variable {resolver : CanonicalSymbolResolver} {it : Option String} {s : String}

/-- What the resolver accepts is what the parser does, under the text of the symbol. -/
theorem exists_of_resolve_eq_ok {r : ResolvedSecurity} (h : resolver.resolve s it = .ok r) :
    ∃ cs, CanonicalSymbol.fromVendor resolver.indexOptionRoots s it = .ok cs ∧
      r.securityId = cs.str := by
  rw [CanonicalSymbolResolver.resolve] at h
  cases hparsed : CanonicalSymbol.fromVendor resolver.indexOptionRoots s it with
  | error e =>
    rw [hparsed] at h
    cases h
  | ok cs =>
    rw [hparsed] at h
    obtain rfl := Except.ok.inj h
    exact ⟨cs, rfl, rfl⟩

theorem exists_resolve_of_fromVendor {cs : CanonicalSymbol}
    (h : CanonicalSymbol.fromVendor resolver.indexOptionRoots s it = .ok cs) :
    ∃ r, resolver.resolve s it = .ok r := by
  rw [CanonicalSymbolResolver.resolve, h]
  exact ⟨_, rfl⟩

/-- The id of an accepted symbol is the text of the contract's symbol. -/
theorem Denotes.securityId_eq {c : Contract} {r : ResolvedSecurity} (hc : Denotes it s c)
    (h : resolver.resolve s it = .ok r) :
    r.securityId = (c.symbol resolver.indexOptionRoots).str := by
  obtain ⟨cs, hparsed, hid⟩ := exists_of_resolve_eq_ok h
  rw [hc.fromVendor_eq] at hparsed
  rw [hid, ← Except.ok.inj hparsed]

end Resolver

/-- **Two months, one id**: the June and the September contract of one root are told apart by
neither the parser nor the id. -/
theorem not_distinguishesContracts : ¬ DistinguishesContracts { indexOptionRoots := none } := by
  intro h
  have hdigit : ∀ c ∈ ['6'], Numeral.isDecimal c = true := List.all_eq_true.mp (by decide)
  have hroot : ∀ c ∈ ['E', 'S'], isRootChar c = true := List.all_eq_true.mp (by decide)
  have hjune : Denotes (some "Future") "/ESM6" (.future ['E', 'S'] 'M' 6) :=
    .future (m := ⟨['E', 'S'], 'M', ['6']⟩) (by decide)
      ⟨⟨⟨by decide, hroot⟩, by decide, by decide, by decide, hdigit⟩, by decide⟩
  have hseptember : Denotes (some "Future") "/ESU6" (.future ['E', 'S'] 'U' 6) :=
    .future (m := ⟨['E', 'S'], 'U', ['6']⟩) (by decide)
      ⟨⟨⟨by decide, hroot⟩, by decide, by decide, by decide, hdigit⟩, by decide⟩
  exact h rfl rfl hjune hseptember (by decide) rfl

/-- **The canonical ids tell contracts apart**, save for the months of one future: for every table
of index roots, the accepted symbols of options and futures denote one contract each, and the ids
of two of them are equal exactly when the contracts are, or are futures with one root. -/
theorem identifiesContracts (resolver : CanonicalSymbolResolver) :
    IdentifiesContracts resolver where
  denotes hit := by
    constructor
    · rintro ⟨r, hr⟩
      obtain ⟨cs, hparsed, -⟩ := exists_of_resolve_eq_ok hr
      obtain ⟨c, hc, -⟩ := (CanonicalSymbol.fromVendor_eq_ok_iff hit).mp hparsed
      exact ⟨c, hc⟩
    · rintro ⟨c, hc⟩
      exact exists_resolve_of_fromVendor (hc.fromVendor_eq _)
  unique := Denotes.unique
  ids h h' hc hc' := by
    rw [hc.securityId_eq h, hc'.securityId_eq h', str_symbol_eq_iff hc.wellFormed hc'.wellFormed]

end TtLedger
