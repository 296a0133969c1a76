import ReadOnlyViews.Main
import ReadOnlyViews.Proofs.RepeatedConversions
import ReadOnlyViews.Proofs.FaithfulReport
import ReadOnlyViews.Proofs.RepeatedRuns
import ReadOnlyViews.Proofs.DryRuns
import ReadOnlyViews.Proofs.LineEndConversions
import ReadOnlyViews.Proofs.TableCleanup
import ReadOnlyViews.Proofs.UntouchedText
import ReadOnlyViews.Proofs.Stamps
import ReadOnlyViews.Proofs.SealedChangelogs
import ReadOnlyViews.Proofs.LoadedEntities
import ReadOnlyViews.Proofs.SqlFiles
import ReadOnlyViews.Proofs.MethodRemovals
import ReadOnlyViews.Proofs.ForbiddenSql
import ReadOnlyViews.Proofs.ImportReferences
import ReadOnlyViews.Proofs.RemovedMembers
import ReadOnlyViews.Proofs.InsertedLines
import ReadOnlyViews.Proofs.FileEdits
import ReadOnlyViews.Proofs.CreatedViews
import ReadOnlyViews.Proofs.ViewChangelogs
import ReadOnlyViews.Proofs.SnakeCase
import ReadOnlyViews.Proofs.ModelImports
