import TypeLists.Query

/-! Programs: type aliases, a limit, and queries that are answered independently of one another. -/

namespace TypeLists

/-- The depth that literals and proofs may reach where nothing sets another. -/
def defaultLimit : Nat := 128

/-- Some queries over the same type aliases. -/
structure Program where
  /-- The depth that literals and proofs may reach. -/
  limit : Nat
  /-- The type aliases, which may refer to one another in any order. -/
  aliases : List (String × Ty)
  queries : List Query

/-- Replace every literal in some type aliases, each of which starts at the outermost level. -/
def expandAliases (definitions : List (String × Ty)) : Expanding (List (String × Ty)) :=
  -- Unused aliases are expanded as well.
  definitions.mapM fun definition => return (definition.1, ← definition.2.expand 0)

namespace Program

/-- The answer of one query of a program. -/
def answer (program : Program) (query : Query) : Answer := do
  -- The literals of all aliases come first, then those of the query, then everything else.
  let (aliases, query) ← Except.mapError Refusal.ofLiteral <| Expanding.run program.limit do
    return (← expandAliases program.aliases, ← query.expand)
  query.answer (Scope.ofAliases program.limit aliases)

/-- The answers of all queries of a program. -/
def answers (program : Program) : List Answer :=
  program.queries.map program.answer

end Program

end TypeLists
