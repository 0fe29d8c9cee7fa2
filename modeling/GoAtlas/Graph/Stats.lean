import GoAtlas.Graph.Resolution

/-!
# Counters of a graph

How many declarations of each shape a graph holds, how many embeddings, and how many of them lead
out of the graph.
-/

namespace GoAtlas

/-- The counters of a graph. -/
structure Stats where
  declarations : Nat
  aliases : Nat
  structs : Nat
  interfaces : Nat
  embeddings : Nat
  unresolvedEmbeddings : Nat
  unresolvedAliases : Nat
  deriving DecidableEq, Repr, Inhabited

namespace Stats

/-- One line that tells the counters and how many diagnostics there are. -/
def summary (s : Stats) (diagnostics : Nat) : String :=
  toString s.declarations ++ " types (" ++ toString s.structs ++ " structs, " ++
    toString s.interfaces ++ " interfaces, " ++ toString s.aliases ++ " aliases, " ++
    toString s.unresolvedAliases ++ " unresolved), " ++ toString s.embeddings ++
    " embeddings (" ++ toString s.unresolvedEmbeddings ++ " unresolved), " ++
    toString diagnostics ++ " diagnostics"

end Stats

namespace TypeGraph

/-- The number of declarations of one shape. -/
def countShape (g : TypeGraph) (tag : ShapeTag) : Nat :=
  g.declarations.countP fun d => d.shape.tag == tag

/-- The counters of a graph. An alias counts as unresolved when it names a type that is not
declared. -/
def stats (g : TypeGraph) : Stats :=
  { declarations := g.declarations.length
    aliases := g.countShape .aliasType
    structs := g.countShape .struct
    interfaces := g.countShape .interface
    embeddings := g.embeddings.length
    unresolvedEmbeddings := g.embeddings.countP fun e => (g.resolve e.target).isExternal
    unresolvedAliases :=
      g.declarations.countP fun d => (g.resolveAlias d).any Resolution.isUnresolvedName }

end TypeGraph

end GoAtlas
