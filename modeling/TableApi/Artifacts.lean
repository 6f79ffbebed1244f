import TableApi.Json.Printer
import TableApi.Synthesis

/-! The files that a pass is written to. -/
namespace TableApi.Output

def apiJson (output : Output) : Json :=
  .object [("api", output.api.toJson),
    ("dataSources", .array (output.dataSources.map DataSource.toJson))]

/-- Names and contents in the order of writing. -/
def artifacts (output : Output) : List (String × String) :=
  [("schema.graphql", output.schema),
   ("resolvers.json", (Json.array (output.bindings.map Binding.toJson)).pretty ++ "\n"),
   ("tables.json", (Json.array (output.tables.map TableDescriptor.toJson)).pretty ++ "\n"),
   ("api.json", output.apiJson.pretty ++ "\n")]

end TableApi.Output
