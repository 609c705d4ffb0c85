import DomainEvolution.Main
import DomainEvolution.Proofs.DestinationDetermined
import DomainEvolution.Proofs.AcyclicLineage
import DomainEvolution.Proofs.RecursiveSearch
import DomainEvolution.Proofs.WalkLog
import DomainEvolution.Proofs.RefreshedTuples
import DomainEvolution.Proofs.BuilderCoverage
import DomainEvolution.Proofs.WellFormedDomain
import DomainEvolution.Proofs.DifferenceHistory
import DomainEvolution.Proofs.CompilationStages
import DomainEvolution.Proofs.DeclarationOrder
import DomainEvolution.Proofs.MemberEvolutions
import DomainEvolution.Proofs.VersionChain
import DomainEvolution.Proofs.Rearrangement
import DomainEvolution.Proofs.WorkerPool
import DomainEvolution.Proofs.SourceStructure
import DomainEvolution.Proofs.DomainNames
import DomainEvolution.Proofs.FaithfulCodec
import DomainEvolution.Proofs.RewrittenJson
import DomainEvolution.Proofs.DeclarationText
import DomainEvolution.Proofs.ModelText
import DomainEvolution.Proofs.BuilderWiring
import DomainEvolution.Proofs.DifferenceFaults
import DomainEvolution.Proofs.FirstMisplaced
import DomainEvolution.Proofs.DifferenceTags
import DomainEvolution.Proofs.RemovedReferences
import DomainEvolution.Proofs.TransformHooks
import DomainEvolution.Proofs.OverloadSets
import DomainEvolution.Proofs.TagSpellings
import DomainEvolution.Proofs.RunOutcome
