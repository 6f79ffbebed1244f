import TableApi.Main
import TableApi.Proofs.Acceptance
import TableApi.Proofs.DefinedTypes
import TableApi.Proofs.PointKeys
import TableApi.Proofs.DataSources
import TableApi.Proofs.IndexReach
import TableApi.Proofs.KeyConditions
import TableApi.Proofs.WrittenTypes
import TableApi.Proofs.RootNames
import TableApi.Proofs.ClosedSchema
import TableApi.Proofs.KeyTypes
import TableApi.Proofs.InputTypes
import TableApi.Proofs.LegalNames
import TableApi.Proofs.RootOwnership
import TableApi.Proofs.TableOrder
import TableApi.Proofs.ArgumentNames
import TableApi.Proofs.IndexNames
import TableApi.Proofs.Refusals
import TableApi.Proofs.NameIndex
import TableApi.Proofs.TwinTables
import TableApi.Proofs.RenderedSchemas
import TableApi.Proofs.StoredTables
import TableApi.Proofs.PlannedNames
import TableApi.Proofs.TypeGrammar
import TableApi.Proofs.SoundDeclarations
import TableApi.Proofs.WritableSchemas
import TableApi.Proofs.MoreIndexes
import TableApi.Proofs.ArgumentTypes
import TableApi.Proofs.DeclaredRoles
import TableApi.Proofs.RequestDocuments
import TableApi.Proofs.StoredKeys
import TableApi.Proofs.Layering
import TableApi.Proofs.DeclaredNames
import TableApi.Proofs.ArrayDeclarations
import TableApi.Proofs.Additions
import TableApi.Proofs.ResolvedNames
import TableApi.Proofs.AuthorizationModes
import TableApi.Proofs.StorageDocuments
import TableApi.Proofs.ScalarSpellings
import TableApi.Proofs.KeysOnlyMarkers
